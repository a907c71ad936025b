import PatternCount.PositionSet

/-!
# More on sets of positions

Beside its definition, each operation on a `PositionSet` says which positions are members afterwards. The lemmas
here are about what is read off a set: its smallest member, how many members it has, and whether it lies within
another. The smallest member is the lowest bit, which a subtraction of one takes out (`mem_and_sub_one`).
-/

namespace PatternCount.PositionSet

theorem foldl_insert : ∀ {is : List Nat} {s : PositionSet} {i : Nat},
    i ∈ is.foldl insert s ↔ i ∈ s ∨ i ∈ is
  | [], _, _ => by simp
  | j :: rest, s, i => by
      rw [List.foldl_cons, foldl_insert, mem_insert, or_assoc, List.mem_cons]

@[simp] theorem mem_ofList {is : List Nat} {i : Nat} : i ∈ ofList is ↔ i ∈ is := by
  rw [ofList, foldl_insert]
  simp

theorem isEmpty_iff {s : PositionSet} : s.isEmpty = true ↔ ∀ i, i ∉ s := by
  rw [isEmpty, decide_eq_true_eq]
  constructor
  · intro h i hi
    rw [mem_def, h, Nat.zero_testBit] at hi
    cases hi
  · intro h
    refine Nat.eq_of_testBit_eq ?_
    intro i
    rw [Nat.zero_testBit]
    exact Bool.eq_false_iff.mpr (h i)

theorem isSubset_iff {s t : PositionSet} : s.isSubset t = true ↔ ∀ i ∈ s, i ∈ t := by
  simp only [isSubset, isEmpty_iff, mem_diff, not_and, Decidable.not_not]

theorem nodup_toList (s : PositionSet) : s.toList.Nodup := List.nodup_range.filter _

theorem mem_of_first? {s : PositionSet} {i : Nat} (h : s.first? = some i) : i ∈ s :=
  mem_toList.mp (List.mem_of_head? h)

theorem not_mem_of_first? {s : PositionSet} (h : s.first? = none) (i : Nat) : i ∉ s := by
  rw [← mem_toList, List.head?_eq_none_iff.mp h]
  exact List.not_mem_nil

theorem ext_mem {s t : PositionSet} (h : ∀ i, i ∈ s ↔ i ∈ t) : s = t :=
  congrArg mk (Nat.eq_of_testBit_eq fun i => Bool.eq_iff_iff.mpr (h i))

theorem le_of_first? {s : PositionSet} {a i : Nat} (h : s.first? = some a) (hi : i ∈ s) : a ≤ i := by
  have hasc : s.toList.Pairwise (· < ·) := List.pairwise_lt_range.filter _
  obtain ⟨rest, hrest⟩ := List.head?_eq_some_iff.mp h
  rw [← mem_toList, hrest, List.mem_cons] at hi
  rw [hrest, List.pairwise_cons] at hasc
  exact hi.elim (fun heq => Nat.le_of_eq heq.symm) fun hi => Nat.le_of_lt (hasc.1 i hi)

/-- Subtracting one changes the lowest bit and those below it. -/
theorem testBit_sub_one : ∀ {a n i : Nat}, n.testBit a = true → (∀ j < a, n.testBit j = false) →
    n.testBit i = true → ((n - 1).testBit i = true ↔ i ≠ a)
  | 0, n, 0, ha, _, _ => by
      rw [Nat.testBit_zero, decide_eq_true_eq] at ha ⊢
      omega
  | 0, n, i + 1, ha, _, hi => by
      have hhalf : (n - 1) / 2 = n / 2 := by
        rw [Nat.testBit_zero, decide_eq_true_eq] at ha
        omega
      rw [Nat.testBit_succ] at hi ⊢
      simp [hhalf, hi]
  | a + 1, n, 0, _, hbelow, hi => by
      rw [hbelow 0 (Nat.succ_pos a)] at hi
      cases hi
  | a + 1, n, i + 1, ha, hbelow, hi => by
      have hhalf : (n - 1) / 2 = n / 2 - 1 := by
        have heven := hbelow 0 (Nat.succ_pos a)
        rw [Nat.testBit_zero, decide_eq_false_iff_not] at heven
        omega
      rw [Nat.testBit_succ] at ha hi ⊢
      rw [hhalf, testBit_sub_one ha (fun j hj => ?_) hi, ne_eq, ne_eq, Nat.add_right_cancel_iff]
      rw [← Nat.testBit_succ]
      exact hbelow (j + 1) (Nat.succ_lt_succ hj)

/-- The lowest bit is taken out by the bits of the number before. -/
theorem mem_and_sub_one {s : PositionSet} {a i : Nat} (h : s.first? = some a) :
    i ∈ (⟨s.bits &&& (s.bits - 1)⟩ : PositionSet) ↔ i ∈ s ∧ i ≠ a := by
  have hbelow : ∀ j < a, s.bits.testBit j = false := fun j hj =>
    Bool.eq_false_iff.mpr fun hj' => Nat.not_le.mpr hj (le_of_first? h (mem_def.mpr hj'))
  rw [mem_def, Nat.testBit_and, Bool.and_eq_true, ← mem_def]
  exact and_congr_right (testBit_sub_one (mem_of_first? h) hbelow)

end PatternCount.PositionSet
