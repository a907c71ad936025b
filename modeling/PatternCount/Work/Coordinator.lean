import PatternCount.Word
import PatternCount.Work.Queue

/-!
# The coordinator of a run

The top-level vertices are split evenly over the workers of all ranks: `staticSplit` gives worker `g` the
vertices from `n * g / w` up to `n * (g + 1) / w`. Each worker's slice has a cursor that moves on by whole
chunks, and whoever moves it owns the vertices it passes; `Cursor.claim` is the one way to move it. Units that
are claimed but not yet handed out wait in the shared queue or in the backlog of a worker. When a rank is
done it reports its total, and the totals of all ranks make the total of the run.

A `Coordinator` is the state that all workers share. How a worker gets its next unit from it is in
`Work.Handout`.
-/

namespace PatternCount

/-- How many ranks take part in a run, and how many workers each has. -/
structure Layout where
  ranks : Nat
  threadsPerRank : Nat
deriving DecidableEq, Repr

namespace Layout

def single (threads : Nat) : Layout := ⟨1, threads⟩

def workers (l : Layout) : Nat := l.ranks * l.threadsPerRank

end Layout

/-- The slice of `[0, n)` that belongs to worker `g` of all the workers. -/
def staticSplit (n : Nat) (l : Layout) (g : Nat) : Nat × Nat :=
  (n * g / l.workers, n * (g + 1) / l.workers)

/-- How far a slice has been claimed. The counter goes on past the end of the slice when nothing is left, and
wraps around at the size of a word. -/
structure Cursor where
  next : Nat
  stop : Nat
deriving DecidableEq, Repr

namespace Cursor

def remaining (c : Cursor) : Nat := c.stop - c.next

/-- Moves the cursor on by `amount` and takes the vertices it passes, if any are left. -/
def claim (c : Cursor) (amount : Nat) : Except Fault (Option (Nat × Nat)) × Cursor :=
  let taken :=
    if c.next < c.stop then do return some (c.next, min (← Word.checkedAdd c.next amount) c.stop)
    else .ok none
  (taken, { c with next := Word.wrappingAdd c.next amount })

end Cursor

/-- What the workers of a run share. -/
structure Coordinator where
  vertexCount : Nat
  layout : Layout
  chunkSize : Nat
  /-- The most units that are taken from another worker at once. -/
  stealBatch : Nat
  cursors : Array Cursor
  /-- For each worker, claimed units that found no room in the queue; the last one is taken first. -/
  backlogs : Array (Array WorkUnit)
  queue : WorkQueue
  produced : Nat
  /-- How many vertices have been handed to workers. -/
  claimed : Nat
  /-- The total of each rank that has reported. -/
  results : Array (Option Nat)
  reported : Nat
deriving DecidableEq, Repr

namespace Coordinator

/-! ## Making one -/

def cursorWidth : Nat := 128

/-- The coordinator of a run over `[0, vertexCount)` in which nothing has been handed out. -/
def start (vertexCount : Nat) (layout : Layout) (chunkSize queueCapacity stealBatch : Nat) :
    Except Fault Coordinator := do
  if layout.ranks = 0 then throw .noRanks
  if layout.threadsPerRank = 0 then throw .noThreadsPerRank
  if chunkSize = 0 then throw .zeroChunkSize
  if stealBatch = 0 then throw .zeroStealBatch
  let workers ← Word.checkedMul layout.ranks layout.threadsPerRank
  Word.checkTable workers cursorWidth
  return {
    vertexCount, layout, chunkSize, stealBatch
    cursors := (Array.range workers).map fun g =>
      let (lo, hi) := staticSplit vertexCount layout g
      ⟨lo, hi⟩
    backlogs := Array.replicate workers #[]
    queue := ← WorkQueue.ofCapacity queueCapacity
    produced := 0
    claimed := 0
    results := Array.replicate layout.ranks none
    reported := 0 }

section Reading

variable (c : Coordinator)

def globalWorker (rank worker : Nat) : Except Fault Nat :=
  if c.layout.ranks ≤ rank then .error (.rankOutOfRange rank)
  else if c.layout.threadsPerRank ≤ worker then .error (.workerOutOfRange worker)
  else .ok (rank * c.layout.threadsPerRank + worker)

def assignedRange (rank worker : Nat) : Except Fault (Nat × Nat) := do
  return staticSplit c.vertexCount c.layout (← c.globalWorker rank worker)

def isDrained : Bool :=
  c.cursors.all (·.remaining = 0) && c.queue.isEmpty && c.backlogs.all (·.isEmpty)

/-- What is left of the slices, and how many units wait. As long as no cursor has wrapped around, a worker
gets no more units than this. -/
def outstanding : Nat :=
  let unclaimed := c.cursors.foldl (fun total cursor => total + cursor.remaining) 0
  c.backlogs.foldl (fun total units => total + units.size) (unclaimed + c.queue.size)

/-- More calls than a single worker can make before it gets nothing: each unit that is not of its own slice
leaves less outstanding, and between two of them it can go through its own slice, if its cursor wraps. -/
def callLimit : Nat := (c.outstanding + 1) * (c.vertexCount + 1)

end Reading

/-! ## Shared operations

Each of these is one indivisible step: a move of a cursor, an addition to a counter, or a change made while a
lock is held. -/

section Operations

variable (c : Coordinator)

/-- Moves the cursor of worker `g` and takes what it passes. -/
def claim (g amount : Nat) : Except Fault (Option (Nat × Nat)) × Coordinator :=
  match c.cursors[g]? with
  | some cursor =>
      let (taken, cursor) := cursor.claim amount
      (taken, { c with cursors := c.cursors.setIfInBounds g cursor })
  | none => (.error (.indexOutOfBounds c.cursors.size g), c)

def remaining (g : Nat) : Nat :=
  match c.cursors[g]? with
  | some cursor => cursor.remaining
  | none => 0

def addProduced (n : Nat) : Coordinator := { c with produced := Word.wrappingAdd c.produced n }

def addClaimed (n : Nat) : Coordinator := { c with claimed := Word.wrappingAdd c.claimed n }

def popBacklog (g : Nat) : Option WorkUnit × Coordinator :=
  match c.backlogs[g]? with
  | some backlog =>
      (backlog.back?, { c with backlogs := c.backlogs.setIfInBounds g backlog.pop })
  | none => (none, c)

def extendBacklog (g : Nat) (units : List WorkUnit) : Coordinator :=
  { c with backlogs := c.backlogs.modify g (· ++ units.toArray) }

def popQueue : Option WorkUnit × Coordinator :=
  let (u, queue) := c.queue.pop
  (u, { c with queue })

/-- Appends units to the queue; the answer is those that found no room. -/
def pushQueue (units : List WorkUnit) : List WorkUnit × Coordinator :=
  let (left, queue) := c.queue.pushBatch units
  (left, { c with queue })

end Operations

end Coordinator

end PatternCount
