import PatternCount.Work.Coordinator

/-!
# Totals of ranks

Each rank reports its total once: it writes the total into its slot, then counts itself as reported. Whoever
asks for the total of the run first looks whether all ranks are counted and only then adds up the slots, so
that it never sees a part of the sum. As with calls for work, both are sequences of steps on the shared
state: `Report.step` and `Inquiry.step`.
-/

namespace PatternCount

inductive Report where
  | fill (rank total : Nat)
  | count
  | finished
  | failed (fault : Fault)
deriving DecidableEq, Repr

namespace Report

/-- Writes a total into the empty slot of a rank. -/
def fillSlot (rank total : Nat) (c : Coordinator) : Except Fault Coordinator :=
  match c.results[rank]? with
  | none => .error (.indexOutOfBounds c.results.size rank)
  | some (some _) => .error (.reportedTwice rank)
  | some none => .ok { c with results := c.results.setIfInBounds rank (some total) }

/-- The next step of a report, and the shared state after it. -/
def step (r : Report) (c : Coordinator) : Report × Coordinator :=
  match r with
  | fill rank total =>
      match fillSlot rank total c with
      | .ok c => (count, c)
      | .error f => (failed f, c)
  | count => (finished, { c with reported := Word.wrappingAdd c.reported 1 })
  | finished => (finished, c)
  | failed f => (failed f, c)

end Report

inductive Inquiry where
  | look
  | add
  /-- Answered: nothing if not all ranks had reported. -/
  | finished (total : Option Nat)
  | failed (fault : Fault)
deriving DecidableEq, Repr

namespace Inquiry

/-- The sum of the totals. A slot that is empty counts nothing. -/
def sumSlots (c : Coordinator) : Except Fault Nat := Word.checkedSum (c.results.toList.map (·.getD 0))

/-- The next step of a question; it changes nothing. -/
def step (q : Inquiry) (c : Coordinator) : Inquiry :=
  match q with
  | look => if c.layout.ranks ≤ c.reported then add else finished none
  | add =>
      match sumSlots c with
      | .ok total => finished (some total)
      | .error f => failed f
  | finished total => finished total
  | failed f => failed f

def answer : Inquiry → Except Fault (Option Nat)
  | finished total => .ok total
  | failed f => .error f
  | _ => .error .unfinishedCall

end Inquiry

namespace Coordinator

def reportResult (c : Coordinator) (rank total : Nat) : Except Fault Unit × Coordinator :=
  match (Report.fill rank total).step c with
  | (.failed f, c) => (.error f, c)
  | (r, c) => (.ok (), (r.step c).2)

def tryRunMajor (c : Coordinator) : Except Fault (Option Nat) :=
  ((Inquiry.look.step c).step c).answer

end Coordinator

end PatternCount
