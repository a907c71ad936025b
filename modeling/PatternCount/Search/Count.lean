import PatternCount.Search.Candidates
import PatternCount.Work.Unit

/-!
# Counting

`Search.countUnit` counts the ways to carry out a plan whose first vertex lies in a unit of work. Level by
level it makes the candidates, prepares what the levels further in will ask for, and sums over the candidates;
the last level is counted without being walked. Where there are more candidates than the threshold they are
split into jobs, as for workers side by side: each job has buffers of its own, which its candidates share, and
how the candidates are split is up to the search.
-/

namespace PatternCount.Search

variable (s : Search)

/-! ## What is prepared for the levels further in -/

/-- For every cache that is asked for the vertex of a level, the positions of all its candidates, none if the
cache was not built. The old positions give their storage. -/
def lookUp (frames : List Frame) (candidates : VertexSet) : (lookups : List Nat) →
    (old : List (Array Nat)) → Except Fault (List (Array Nat))
  | [], _ => .ok []
  | c :: rest, old => do
      let buffer := old.headD #[]
      let found ←
        match (← frameAt frames c).cache with
        | some cache => cache.positionsInto candidates buffer
        | none => pure (buffer.take 0)
      return found :: (← lookUp frames candidates rest old.tail)

def wantsCache (reuse : Float) : Bool :=
  match s.policy with
  | .always => true
  | .never => false
  | .costModel => reuse > AdjacencyCache.minReuse

/-- The cache over the candidates, narrowed from that of level `parent`, if that was built. -/
def deriveCache? (frames : List Frame) (candidates : VertexSet) (info : LevelInfo)
    (positions : Array (Array Nat)) (parent : Nat) : Except Fault (Option AdjacencyCache) := do
  match (← frameAt frames parent).cache, info.lookups.idxOf? parent with
  | some outer, some slot =>
      return some (← outer.derive (← Fault.index positions slot) candidates candidates)
  | _, _ => return none

/-- The cache over the candidates of a level, if one is planned and wanted. -/
def buildCache? (frames : List Frame) (candidates : VertexSet) (level : Level) (info : LevelInfo)
    (positions : Array (Array Nat)) : Except Fault (Option AdjacencyCache) := do
  match level.cache with
  | none => return none
  | some spec =>
      let reuse := AdjacencyCache.estimateReuse candidates.size info.cacheDistances
      if s.wantsCache reuse then
        let derived ←
          match spec.parent with
          | some parent => deriveCache? frames candidates info positions parent
          | none => pure none
        let cache ←
          match derived with
          | some cache => pure cache
          | none => AdjacencyCache.build s.graph candidates candidates
        return some (cache.withReuse (.ofFloat reuse))
      else
        return none

/-! ## Sums over candidates -/

/-- The sum of what is counted at each index, one after another with the same buffers. -/
def sumOver (count : Nat → List Buffers → Except Fault (Nat × List Buffers)) :
    List Nat → (total : Nat) → List Buffers → Except Fault (Nat × List Buffers)
  | [], total, buffers => .ok (total, buffers)
  | i :: rest, total, buffers => do
      let (n, buffers) ← count i buffers
      sumOver count rest (← Word.checkedAdd total n) buffers

def freshBuffers (levels : Nat) : List Buffers := List.replicate levels .empty

/-- The sum over the indices of all jobs, where each job begins with the given buffers. -/
def sumJobs (count : Nat → List Buffers → Except Fault (Nat × List Buffers)) (buffers : List Buffers) :
    (jobs : List (List Nat)) → (total : Nat) → Except Fault Nat
  | [], total => .ok total
  | job :: rest, total => do
      let (n, _) ← sumOver count job 0 buffers
      sumJobs count buffers rest (← Word.checkedAdd total n)

/-- The number of ways to go on from the frames of the levels before `k`, given the levels from `k` on and
buffers for each of them. Where no level is left, the vertices bound are the one way. -/
def descend : (levels : List (Level × LevelInfo)) → (k : Nat) → (frames : List Frame) →
    (buffers : List Buffers) → Except Fault (Nat × List Buffers)
  | [], _, _, buffers => .ok (1, buffers)
  | _ :: _, _, _, [] => .error .missingScratch
  | [(level, _)], _, frames, mine :: rest => do
      let (n, mine) ← s.countCandidates frames level.candidates mine
      return (n, mine :: rest)
  | (level, info) :: next :: inner, k, frames, mine :: rest => do
      let mine ← s.evaluate frames level.candidates mine
      if mine.set.isEmpty then
        return (0, mine :: rest)
      let candidates ← VertexSet.ofArray mine.set
      let positions := (← lookUp frames candidates info.lookups mine.positions.toList).toArray
      let mine := { mine with positions }
      let cache ← s.buildCache? frames candidates level info positions
      let count := fun i buffers => do
        let vertex ← Fault.index candidates.members i
        descend (next :: inner) (k + 1) (⟨k, vertex, i, candidates, cache, positions⟩ :: frames) buffers
      if s.threshold < candidates.size then
        let n ← sumJobs count (freshBuffers rest.length) (s.sharing.jobs frames candidates.size) 0
        return (n, mine :: rest)
      else
        let (n, rest) ← sumOver count (List.range candidates.size) 0 rest
        return (n, mine :: rest)

/-! ## Units of work -/

def innerLevels : List (Level × LevelInfo) := (s.plan.levels.toList.zip s.plan.info.toList).tail

/-- The frame of the first level, which ranges over all vertices. -/
def rootFrame (v : Nat) : Frame := ⟨0, v, v, s.vertices, none, #[]⟩

def workerBuffers : List Buffers := freshBuffers (s.plan.depth - 1)

/-- The number of ways to carry out the plan whose first vertex lies in the unit, and the buffers
afterwards. -/
def countUnit (u : WorkUnit) (buffers : List Buffers) : Except Fault (Nat × List Buffers) :=
  if s.plan.depth = 1 then .ok (u.size, buffers)
  else
    let levels := s.innerLevels
    sumOver (fun v => s.descend levels 1 [s.rootFrame v]) u.vertices 0 buffers

end PatternCount.Search
