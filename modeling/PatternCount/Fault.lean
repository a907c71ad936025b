/-!
# Faults

A *fault* is a call that breaks the contract of the function it calls: an index past the end, a list that
should have been ascending, a sum that does not fit in a machine word. Faults are not answers about the
input (those have error types of their own beside the operation that finds them); a program that keeps its
contracts never meets one. `Fault.message` is the one place where they are put into words.
-/

namespace PatternCount

inductive Fault where
  | unsortedSet
  | indexOutOfBounds (length index : Nat)
  /-- A slice of an array begins behind its own end. -/
  | sliceOutOfOrder (start stop : Nat)
  /-- A slice ends past the end of the array. -/
  | sliceOutOfBounds (length stop : Nat)
  | shiftOverflow
  | addOverflow
  | subOverflow
  | mulOverflow
  /-- More vertices than there are vertex numbers. -/
  | tooManyVertices (count : Nat)
  | unsortedRow (row : Nat)
  | entryOutOfRange (source target count : Nat)
  /-- An undirected edge names a vertex that does not exist. -/
  | endpointOutOfRange (source target count : Nat)
  | vertexOutOfRange (vertex : Nat)
  | positionOutOfRange (position rows : Nat)
  /-- A derived cache was given a list of positions that does not match its vertices. -/
  | positionCountMismatch
  | vertexNotCached (vertex : Nat)
  /-- No vertex has been bound at the level that a lookup names. -/
  | missingFrame (level : Nat)
  /-- A level of the search was entered without buffers to work in. -/
  | missingScratch
  | noRanks
  | noThreadsPerRank
  | zeroChunkSize
  | zeroStealBatch
  | zeroQueueCapacity
  /-- A table would be larger than memory can be addressed. -/
  | capacityOverflow
  | rankOutOfRange (rank : Nat)
  | workerOutOfRange (worker : Nat)
  | reportedTwice (rank : Nat)
  /-- A call for work went on longer than any call can. -/
  | unfinishedCall
  | emptyTally
  | idleRun
  | tooManyWorkers (workers threads : Nat)
  | workerCountMismatch
  | foreignCoordinator
deriving DecidableEq, Repr

namespace Fault

def message : Fault → String
  | unsortedSet => "vertex set is not sorted-unique"
  | indexOutOfBounds length index => s!"index out of bounds: the len is {length} but the index is {index}"
  | sliceOutOfOrder start stop => s!"slice index starts at {start} but ends at {stop}"
  | sliceOutOfBounds length stop => s!"range end index {stop} out of range for slice of length {length}"
  | shiftOverflow => "attempt to shift left with overflow"
  | addOverflow => "attempt to add with overflow"
  | subOverflow => "attempt to subtract with overflow"
  | mulOverflow => "attempt to multiply with overflow"
  | tooManyVertices count => s!"vertex count {count} does not fit in a Vid"
  | unsortedRow row => s!"row {row} is not sorted-unique"
  | entryOutOfRange source target count => s!"edge {source}->{target} is out of bounds for n={count}"
  | endpointOutOfRange source target count => s!"edge {source}-{target} is out of bounds for n={count}"
  | vertexOutOfRange vertex => s!"vertex {vertex} out of bounds"
  | positionOutOfRange position rows => s!"position {position} out of bounds for {rows} rows"
  | positionCountMismatch => "one parent position per cached vertex"
  | vertexNotCached vertex => s!"vertex {vertex} is not cached"
  | missingFrame level => s!"frame chain is missing level {level}"
  | missingScratch => "mid > len"
  | noRanks => "ranks must be > 0"
  | noThreadsPerRank => "threads_per_rank must be > 0"
  | zeroChunkSize => "chunk_size must be > 0"
  | zeroStealBatch => "steal_batch must be > 0"
  | zeroQueueCapacity => "queue capacity must be > 0"
  | capacityOverflow => "capacity overflow"
  | rankOutOfRange rank => s!"rank {rank} out of range"
  | workerOutOfRange worker => s!"worker {worker} out of range"
  | reportedTwice rank => s!"rank {rank} reported twice"
  | unfinishedCall => "a call for work did not end"
  | emptyTally => "a context needs at least one worker"
  | idleRun => "a run needs at least one worker"
  | tooManyWorkers workers threads => s!"{workers} workers exceed the pool of {threads} threads"
  | workerCountMismatch => "context and coordinator disagree on workers per rank"
  | foreignCoordinator => "coordinator was built for another graph"

end Fault

/-- The element at `index`, or the fault of looking past the end. -/
def Fault.index {α : Type} (items : Array α) (index : Nat) : Except Fault α :=
  match items[index]? with
  | some item => .ok item
  | none => .error (.indexOutOfBounds items.size index)

/-- The elements from `start` up to `stop`, or the fault of a slice that is none. -/
def Fault.slice {α : Type} (items : Array α) (start stop : Nat) : Except Fault (Array α) :=
  if stop < start then .error (.sliceOutOfOrder start stop)
  else if items.size < stop then .error (.sliceOutOfBounds items.size stop)
  else .ok (items.extract start stop)

end PatternCount
