import PatternCount.Binary64
import PatternCount.Word

/-!
# Tallies

A `Tally` collects what the workers of a rank have counted, one slot for each worker. Runs add to it, so that
several patterns can be counted into one; `Tally.reset` starts over.
-/

namespace PatternCount

/-- What the workers of a rank have counted so far. -/
structure Tally where
  numThreads : Nat
  results : Array Nat
  handled : Array Nat
  /-- The seconds that each worker has spent. -/
  elapsed : Array Binary64
  /-- A counter for a correction that is made after a run; runs set it to zero. -/
  iepRedundancy : Nat
deriving DecidableEq, Repr

namespace Tally

def empty : Tally := ⟨0, #[], #[], #[], 0⟩

def slotWidth : Nat := 8

def ofWorkers (numThreads : Nat) : Except Fault Tally := do
  if numThreads = 0 then throw .emptyTally
  Word.checkTable numThreads slotWidth
  return ⟨numThreads, Array.replicate numThreads 0, Array.replicate numThreads 0,
    Array.replicate numThreads .zero, 0⟩

variable (t : Tally)

def total : Except Fault Nat := Word.checkedSum t.results.toList

def handledTotal : Except Fault Nat := Word.checkedSum t.handled.toList

def reset : Tally :=
  { t with
    results := t.results.map fun _ => 0
    handled := t.handled.map fun _ => 0
    elapsed := t.elapsed.map fun _ => .zero
    iepRedundancy := 0 }

/-- Changes what is in a slot, for a slot that there is. -/
def alter {α : Type} (slots : Array α) (i : Nat) (f : α → Except Fault α) : Except Fault (Array α) := do
  return slots.setIfInBounds i (← f (← Fault.index slots i))

def assign {α : Type} (slots : Array α) (i : Nat) (x : α) : Except Fault (Array α) := alter slots i fun _ => .ok x

/-- Adds to the three slots of a worker, one after the other. What has been added stays, even if a slot after it
fails. -/
def add (worker result handled : Nat) (seconds : Binary64) : Except Fault Unit × Tally :=
  match alter t.results worker (Word.checkedAdd · result) with
  | .error f => (.error f, t)
  | .ok results =>
      match alter t.handled worker (Word.checkedAdd · handled) with
      | .error f => (.error f, { t with results })
      | .ok handled =>
          match alter t.elapsed worker fun x => .ok (x.add seconds) with
          | .error f => (.error f, { t with results, handled })
          | .ok elapsed => (.ok (), { t with results, handled, elapsed })

/-- Equality of all numbers; the two zeros are equal. -/
def sameNumbers (t u : Tally) : Bool :=
  t.numThreads = u.numThreads && t.results = u.results && t.handled = u.handled
    && t.elapsed.size = u.elapsed.size
    && (t.elapsed.zip u.elapsed).all (fun (x, y) => x.sameNumber y)
    && t.iepRedundancy = u.iepRedundancy

end Tally

end PatternCount
