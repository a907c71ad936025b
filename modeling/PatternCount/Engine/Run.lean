import PatternCount.Engine.Tally
import PatternCount.Search.Count
import PatternCount.Work.Handout
import PatternCount.Work.Totals

/-!
# Runs

An `Engine` has a checked configuration and a pool of threads. `Engine.runRank` carries out one rank of a
run: each of its workers asks the coordinator for units until there are no more, and counts what they hold;
then the tally of the rank is brought up to date and its total is reported. Here the workers of a rank come
one after another. The first takes everything there is, which makes no difference to the sums: how the units
are spread over workers and ranks never does. Nor does the `Pool` of an engine, apart from the seconds in a tally.
-/

namespace PatternCount

/-- The threads that workers have, how they share the candidates of a level, and the seconds that each worker
spends. -/
structure Pool where
  threads : Nat
  sharing : Sharing
  seconds : Nat → Binary64

/-- A checked configuration, and the pool that runs are made in. -/
structure Engine where
  config : Config
  pool : Pool
  valid : config.check = .ok ()

namespace Engine

/-- The engine of a configuration, whose pool shares out the candidates one by one and takes no time. -/
def ofConfig (config : Config) (available : Nat) : Except ConfigError Engine :=
  match h : config.check with
  | .ok () => .ok ⟨config, ⟨config.resolvedThreads available, .singly, fun _ => .zero⟩, h⟩
  | .error e => .error e

variable (e : Engine)

def threads : Nat := e.pool.threads

def search (g : HostGraph) (p : Plan) : Search := .ofConfig g p e.config e.pool.sharing

def tally : Except Fault Tally := Tally.ofWorkers e.threads

def coordinator (g : HostGraph) (layout : Layout) : Except Fault Coordinator :=
  Coordinator.start g.vertexCount layout e.config.chunkSize e.config.queueCapacity e.config.stealBatch

/-! ## Workers -/

/-- What a worker has counted in a run. -/
structure Share where
  result : Nat
  handled : Nat
deriving DecidableEq, Repr

def countInto (s : Search) (share : Share) (buffers : List Buffers) (u : WorkUnit) :
    Except Fault (Share × List Buffers) := do
  let (n, buffers) ← s.countUnit u buffers
  let result ← Word.checkedAdd share.result n
  let handled ← Word.checkedAdd share.handled u.size
  return (⟨result, handled⟩, buffers)

/-- Counts units until there are no more, with at most `limit` calls for one. -/
def work (s : Search) (rank worker : Nat) : (limit : Nat) → Share → List Buffers → Coordinator →
    Except Fault Share × Coordinator
  | 0, share, _, c => (.ok share, c)
  | limit + 1, share, buffers, c =>
      match c.getLoop rank worker with
      | (.ok (some u), c) =>
          match countInto s share buffers u with
          | .ok (share, buffers) => work s rank worker limit share buffers c
          | .error f => (.error f, c)
      | (.ok none, c) => (.ok share, c)
      | (.error f, c) => (.error f, c)

/-- What the workers have counted, each working until there is nothing left for it; the first fault if any of
them fails, though the others go on. -/
def workAll (s : Search) (rank : Nat) : (workers : List Nat) → Coordinator →
    Except Fault (List Share) × Coordinator
  | [], c => (.ok [], c)
  | worker :: rest, c =>
      let (share, c) := work s rank worker c.callLimit ⟨0, 0⟩ s.workerBuffers c
      let (shares, c) := workAll s rank rest c
      (do return (← share) :: (← shares), c)

/-! ## Ranks -/

/-- A tally and a coordinator can be used together for a run over a graph. -/
def checkRun (g : HostGraph) (t : Tally) (c : Coordinator) : Except Fault Unit :=
  if t.numThreads = 0 then .error .idleRun
  else if e.threads < t.numThreads then .error (.tooManyWorkers t.numThreads e.threads)
  else if c.layout.threadsPerRank ≠ t.numThreads then .error .workerCountMismatch
  else if c.vertexCount ≠ g.vertexCount then .error .foreignCoordinator
  else .ok ()

/-- Adds the shares of workers to the tally and to the total of their rank, the first of them being that of worker
`worker`. -/
def addShares (seconds : Nat → Binary64) (worker : Nat) : List Share → (total : Nat) → Tally → Except Fault Nat × Tally
  | [], total, t => (.ok total, t)
  | share :: rest, total, t =>
      match t.add worker share.result share.handled (seconds worker) with
      | (.error f, t) => (.error f, t)
      | (.ok (), t) =>
          match Word.checkedAdd total share.result with
          | .error f => (.error f, t)
          | .ok total => addShares seconds (worker + 1) rest total t

/-- Carries out one rank of a run, and reports its total. The tally keeps what was counted even if the rank
has reported before. -/
def runRank (g : HostGraph) (p : Plan) (t : Tally) (c : Coordinator) (rank : Nat) :
    Except Fault Unit × Tally × Coordinator :=
  match e.checkRun g t c with
  | .error f => (.error f, t, c)
  | .ok () =>
      let t := { t with iepRedundancy := 0 }
      match workAll (e.search g p) rank (List.range t.numThreads) c with
      | (.error f, c) => (.error f, t, c)
      | (.ok shares, c) =>
          match addShares e.pool.seconds 0 shares 0 t with
          | (.error f, t) => (.error f, t, c)
          | (.ok total, t) =>
              let (reported, c) := c.reportResult rank total
              (reported, t, c)

def run (g : HostGraph) (p : Plan) (t : Tally) : Except Fault Unit × Tally :=
  match e.coordinator g (.single t.numThreads) with
  | .error f => (.error f, t)
  | .ok c =>
      let (done, t, _) := e.runRank g p t c 0
      (done, t)

/-- The number of ways to carry out the plan in the graph. -/
def count (g : HostGraph) (p : Plan) : Except Fault Nat := do
  let t ← e.tally
  let (done, t) := e.run g p t
  done
  t.total

end Engine

end PatternCount
