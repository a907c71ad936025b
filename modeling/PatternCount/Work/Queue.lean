import PatternCount.Word
import PatternCount.Work.Unit

/-!
# The queue of relinquished work

Workers that hold more units than they need put them into a queue of limited capacity, from which idle
workers take them, oldest first. The queue never drops a unit: what does not fit stays with the caller.
-/

namespace PatternCount

/-- A queue that holds at most `capacity` units, the oldest first. -/
structure WorkQueue where
  capacity : Nat
  units : List WorkUnit
deriving DecidableEq, Repr

namespace WorkQueue

def defaultCapacity : Nat := 256

def unitWidth : Nat := 16

def ofCapacity (capacity : Nat) : Except Fault WorkQueue := do
  if capacity = 0 then throw .zeroQueueCapacity
  Word.checkTable capacity unitWidth
  return ⟨capacity, []⟩

variable (q : WorkQueue)

def size : Nat := q.units.length

def isEmpty : Bool := q.units.isEmpty

/-- Appends a unit; a full queue gives it back. -/
def push (u : WorkUnit) : Except WorkUnit WorkQueue :=
  if q.capacity ≤ q.size then .error u else .ok { q with units := q.units ++ [u] }

/-- Appends as many of the units as fit, in order; the answer is the units that do not, and the queue. -/
def pushBatch (units : List WorkUnit) : List WorkUnit × WorkQueue :=
  let room := q.capacity - q.size
  (units.drop room, { q with units := q.units ++ units.take room })

def pop : Option WorkUnit × WorkQueue :=
  match q.units with
  | [] => (none, q)
  | u :: rest => (some u, { q with units := rest })

end WorkQueue

end PatternCount
