import PatternCount.Proofs.Work.Reports

/-!
# Slots

A report enters its total in the slot of its rank, and is counted after that. Entering a total in an empty slot fills
one more, and adds the total to the sum of the slots (`Coordinator.filled_enter`, `Coordinator.slotSum_enter`); no
other step changes a slot. `Report.Stands` lists where a report may stand, seen from the slots, and
`Report.Stands.step_cases` says what its next step does. `Inquiry.Knows` is what a question has found out.
-/

namespace PatternCount

/-! ## Slots -/

theorem countP_set_add {α : Type} {p : α → Bool} {xs : List α} {i : Nat} {a b : α} (h : xs[i]? = some a) :
    (xs.set i b).countP p + (if p a then 1 else 0) = xs.countP p + if p b then 1 else 0 := by
  obtain ⟨hi, rfl⟩ := List.getElem?_eq_some_iff.mp h
  rw [List.countP_set hi]
  by_cases hp : p xs[i] = true
  · have hpos : 0 < xs.countP p := List.countP_pos_iff.mpr ⟨xs[i], List.getElem_mem hi, hp⟩
    rw [if_pos hp]
    omega
  · rw [if_neg hp]
    omega

theorem getElem?_set_cases {α : Type} {xs : List α} {i j : Nat} {a b : α} (h : (xs.set i a)[j]? = some b) :
    (i = j ∧ b = a) ∨ (i ≠ j ∧ xs[j]? = some b) := by
  by_cases hij : i = j
  · subst hij
    obtain ⟨hi, -⟩ := List.getElem?_eq_some_iff.mp h
    rw [List.length_set] at hi
    rw [List.getElem?_set_self hi] at h
    exact .inl ⟨rfl, (Option.some.inj h).symm⟩
  · rw [List.getElem?_set_ne hij] at h
    exact .inr ⟨hij, h⟩

namespace Coordinator

variable {c : Coordinator} {rank total : Nat}

/-- How many slots are filled. -/
def filled (c : Coordinator) : Nat := c.results.toList.countP Option.isSome

def slotSum (c : Coordinator) : Nat := (c.results.toList.map (·.getD 0)).sum

theorem filled_le : c.filled ≤ c.results.size := List.countP_le_length

theorem isSome_of_filled (h : c.results.size ≤ c.filled) {slot : Option Nat} (hslot : c.results[rank]? = some slot) :
    slot.isSome = true :=
  List.countP_eq_length.mp (Nat.le_antisymm filled_le h) slot (Array.mem_toList_iff.mpr (Array.mem_of_getElem? hslot))

/-- The shared state once the total of a rank is in its slot. -/
def enter (c : Coordinator) (rank total : Nat) : Coordinator :=
  c.withReports (c.results.setIfInBounds rank (some total)) c.reported

theorem size_enter : (c.enter rank total).results.size = c.results.size := Array.size_setIfInBounds

theorem toList_enter : (c.enter rank total).results.toList = c.results.toList.set rank (some total) :=
  Array.toList_setIfInBounds

section Enter

variable (hslot : c.results[rank]? = some none)

include hslot

theorem slot_enter (k t : Nat) : (c.enter rank total).results[k]? = some (some t) ↔
    c.results[k]? = some (some t) ∨ (k = rank ∧ t = total) := by
  show (c.results.setIfInBounds rank (some total))[k]? = _ ↔ _
  by_cases hk : k = rank
  · subst hk
    rw [Array.getElem?_setIfInBounds_self_of_lt (Array.getElem?_eq_some_iff.mp hslot).1, hslot]
    simp [eq_comm]
  · rw [Array.getElem?_setIfInBounds_ne (Ne.symm hk)]
    simp [hk]

theorem filled_enter : (c.enter rank total).filled = c.filled + 1 := by
  have hcount := countP_set_add (p := Option.isSome) (b := some total)
    (show c.results.toList[rank]? = some none by rw [Array.getElem?_toList, hslot])
  rw [filled, toList_enter]
  exact hcount

theorem slotSum_enter : (c.enter rank total).slotSum = c.slotSum + total := by
  have hsum := sum_map_set (fun slot : Option Nat => slot.getD 0) (b := some total)
    (show c.results.toList[rank]? = some none by rw [Array.getElem?_toList, hslot])
  rw [slotSum, toList_enter]
  exact hsum

end Enter

end Coordinator

/-! ## Reports -/

namespace Report

/-- The report has written its total. -/
def isEntered : Report → Bool
  | count => true
  | finished => true
  | _ => false

/-- The rank and the total that the next step writes into a slot, if it does. -/
def writes (r : Report) (c : Coordinator) : List (Nat × Nat) :=
  match r with
  | fill rank total => if (fillSlot rank total c).isOk then [(rank, total)] else []
  | _ => []

variable {c : Coordinator} {r : Report} {rank total : Nat}

/-- Where a report of `total` for `rank` may stand. -/
inductive Stands (rank total : Nat) (c : Coordinator) : Report → Prop
  | waiting : Stands rank total c (.fill rank total)
  | counting : c.results[rank]? = some (some total) → Stands rank total c .count
  | counted : c.results[rank]? = some (some total) → Stands rank total c .finished
  | refused {other : Nat} : c.results[rank]? = some (some other) → Stands rank total c (.failed (.reportedTwice rank))
  | misplaced {f : Fault} : c.results[rank]? = none → Stands rank total c (.failed f)

theorem Stands.slot (h : r.Stands rank total c) (hr : r.isEntered = true) :
    c.results[rank]? = some (some total) := by
  cases h with
  | counting hslot => exact hslot
  | counted hslot => exact hslot
  | _ => cases hr

/-- A report goes on alike in every state in which the filled slots and the ranks are the same, and more are filled. -/
theorem Stands.mono {c' : Coordinator} (h : r.Stands rank total c) (hsize : c'.results.size = c.results.size)
    (hkept : ∀ (i : Nat) (t : Nat), c.results[i]? = some (some t) → c'.results[i]? = some (some t)) :
    r.Stands rank total c' := by
  cases h with
  | waiting => exact .waiting
  | counting hslot => exact .counting (hkept _ _ hslot)
  | counted hslot => exact .counted (hkept _ _ hslot)
  | refused hslot => exact .refused (hkept _ _ hslot)
  | misplaced hslot =>
      refine .misplaced ?_
      rw [Array.getElem?_eq_none_iff] at hslot ⊢
      omega

theorem step_fill_again {other : Nat} (h : c.results[rank]? = some (some other)) :
    (fill rank total).step c = (failed (.reportedTwice rank), c) := by
  simp only [step, fillSlot, h]

theorem step_fill_outside (h : c.results[rank]? = none) :
    (fill rank total).step c = (failed (.indexOutOfBounds c.results.size rank), c) := by
  simp only [step, fillSlot, h]

/-- A step enters the total of a report, counts a report whose total is entered, or touches nothing. -/
theorem Stands.step_cases (h : r.Stands rank total c) (hcount : r = .count → c.reported + 1 < Word.size) :
    (r = .fill rank total ∧ c.results[rank]? = some none ∧ r.writes c = [(rank, total)] ∧
      r.step c = (.count, c.enter rank total)) ∨
    (r = .count ∧ r.writes c = [] ∧ r.step c = (.finished, c.withReports c.results (c.reported + 1))) ∨
    ∃ r', r'.isEntered = r.isEntered ∧ (r' = .finished ↔ r = .finished) ∧ r'.Stands rank total c ∧
      r.writes c = [] ∧ r.step c = (r', c) := by
  cases h with
  | waiting =>
      rcases hslot : c.results[rank]? with _ | _ | other
      · refine .inr (.inr ⟨.failed (.indexOutOfBounds c.results.size rank), rfl, by simp, .misplaced hslot, ?_,
          step_fill_outside hslot⟩)
        simp [writes, fillSlot, hslot, Except.isOk, Except.toBool]
      · refine .inl ⟨rfl, rfl, ?_, step_fill hslot⟩
        simp [writes, fillSlot, hslot, Except.isOk, Except.toBool]
      · refine .inr (.inr ⟨.failed (.reportedTwice rank), rfl, by simp, .refused hslot, ?_,
          step_fill_again hslot⟩)
        simp [writes, fillSlot, hslot, Except.isOk, Except.toBool]
  | counting => exact .inr (.inl ⟨rfl, rfl, step_count (hcount rfl)⟩)
  | counted hslot => exact .inr (.inr ⟨_, rfl, Iff.rfl, .counted hslot, rfl, rfl⟩)
  | refused hslot => exact .inr (.inr ⟨_, rfl, Iff.rfl, .refused hslot, rfl, rfl⟩)
  | misplaced hslot => exact .inr (.inr ⟨_, rfl, Iff.rfl, .misplaced hslot, rfl, rfl⟩)

end Report

/-! ## Questions -/

namespace Inquiry

variable {c c' : Coordinator} {q : Inquiry}

/-- Whoever has gone on to add up the slots has seen that all ranks are counted, and what has been added up is the sum
of the slots. -/
def Knows (c : Coordinator) : Inquiry → Prop
  | add => c.layout.ranks ≤ c.reported
  | finished (some total) => c.layout.ranks ≤ c.reported ∧ total = c.slotSum
  | failed _ => c.layout.ranks ≤ c.reported ∧ Word.size ≤ c.slotSum
  | _ => True

theorem Knows.step (h : q.Knows c) : (q.step c).Knows c := by
  cases q with
  | look =>
      by_cases hranks : c.layout.ranks ≤ c.reported
      · rw [Inquiry.step, if_pos hranks]
        exact hranks
      · rw [Inquiry.step, if_neg hranks]
        trivial
  | add =>
      rcases Nat.lt_or_ge c.slotSum Word.size with hsum | hsum
      · have hadd : sumSlots c = .ok c.slotSum := Word.checkedSum_eq_ok hsum
        rw [Inquiry.step, hadd]
        exact ⟨h, rfl⟩
      · have hadd : sumSlots c = .error .addOverflow := Word.checkedSum_eq_error hsum
        rw [Inquiry.step, hadd]
        exact ⟨h, hsum⟩
  | finished total => exact h
  | failed f => exact h

/-- What is known stays true while the slots stay and more ranks are counted. -/
theorem Knows.mono (h : q.Knows c) (hlayout : c'.layout = c.layout) (hreported : c.reported ≤ c'.reported)
    (hsum : c'.slotSum = c.slotSum) : q.Knows c' := by
  have hranks : c.layout.ranks ≤ c.reported → c'.layout.ranks ≤ c'.reported := fun hle =>
    hlayout ▸ Nat.le_trans hle hreported
  match q, h with
  | look, _ => trivial
  | add, h => exact hranks h
  | finished none, _ => trivial
  | finished (some _), h => exact ⟨hranks h.1, h.2.trans hsum.symm⟩
  | failed _, h => exact ⟨hranks h.1, hsum ▸ h.2⟩

/-- Where not all ranks are counted, nothing is known yet. -/
theorem Knows.of_lt (h : q.Knows c) (hlt : c.reported < c.layout.ranks) : q.Knows c' := by
  match q, h with
  | look, _ => trivial
  | add, h => exact absurd h (Nat.not_le.mpr hlt)
  | finished none, _ => trivial
  | finished (some _), h => exact absurd h.1 (Nat.not_le.mpr hlt)
  | failed _, h => exact absurd h.1 (Nat.not_le.mpr hlt)

end Inquiry

end PatternCount
