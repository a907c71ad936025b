import PatternCount.Proofs.VertexSet.Indexed

/-!
# Counting without making the set

An intersection or a difference can be counted without being made, and what counts it is not what makes it. Common
members are counted by the same two walks with a number in place of the buffer; a difference is not walked at all,
its size is that of the first set less what is common, and the excepted vertex is looked up in both sets to see
whether one more has to come off.

Here the counting walks are written with indices, as the making ones are in `VertexSet.Walk`. A counting walk goes in
step with the making one (`countCommonAt_eq`, `countGallopAt_eq`), so it counts what the other makes. That no
subtraction falls below zero is seen from the two parts of the first set (`size_common_add_size_difference`), of which
the excepted vertex is in one, in the other or in neither (`size_difference_except`).
-/

namespace PatternCount.VertexSet

/-! ## Counting by index -/

section Walks

variable (except : Option Nat)

/-- The number with one more element counted, unless it is the excepted one. -/
def tally (n x : Nat) : Nat := if except ≠ some x then n + 1 else n

/-- Walks two arrays side by side, from index `i` of the one and `j` of the other on. -/
def countCommonAt (a b : Array Nat) (i j n : Nat) : Except Fault Nat :=
  if i < a.size ∧ j < b.size then do
    let x ← Fault.index a i
    let y ← Fault.index b j
    if x < y then countCommonAt a b (i + 1) j n
    else if y < x then countCommonAt a b i (j + 1) n
    else countCommonAt a b (i + 1) (j + 1) (tally except n x)
  else
    .ok n
termination_by (a.size - i) + (b.size - j)

/-- Gallops through an array for the elements of a list. -/
def countGallopAt (large : Array Nat) : List Nat → (j n : Nat) → Except Fault Nat
  | [], _, n => .ok n
  | x :: xs, j, n => do
      let j ← gallopAt large x j
      if j = large.size then
        return n
      let y ← Fault.index large j
      countGallopAt large xs j (if y = x then tally except n x else n)

end Walks

/-- Counts the common members by index. Galloping goes through the second set. -/
def Walk.countCommon (a b : VertexSet) (except : Option Nat) : Walk → Except Fault Nat
  | merge => countCommonAt except a.members b.members 0 0 0
  | gallop => countGallopAt except b.members a.toList 0 0

/-- Counts the members of the first set only: takes off the common ones, then the excepted one if it is left. -/
def Walk.countDifference (a b : VertexSet) (except : Option Nat) (walk : Walk) : Except Fault Nat :=
  if b.isEmpty then Word.checkedSub a.size (if except.any a.contains then 1 else 0)
  else do
    let common ← walk.countCommon a b none
    let left ← Word.checkedSub a.size common
    match except with
    | none => return left
    | some x => if a.contains x && !b.contains x then Word.checkedSub left 1 else return left

/-! ## In step with making the set -/

section Steps

variable {except : Option Nat}

theorem size_keep (out : Array Nat) (x : Nat) : (keep except out x).size = tally except out.size x := by
  rw [keep, tally]
  split
  · exact Array.size_push x
  · rfl

theorem countCommonAt_eq {a b : Array Nat} (i j : Nat) (out : Array Nat) :
    countCommonAt except a b i j out.size = (mergeCommonAt except a b i j out).map Array.size := by
  fun_induction mergeCommonAt except a b i j out with
  | case1 i j out h ih1 ih2 ih3 =>
      obtain ⟨hi, hj⟩ := h
      rw [countCommonAt, if_pos ⟨hi, hj⟩, Fault.index_eq_ok hi, Fault.index_eq_ok hj]
      show (if a[i] < b[j] then _ else if b[j] < a[i] then _ else _)
        = Except.map Array.size (if a[i] < b[j] then _ else if b[j] < a[i] then _ else _)
      rw [ih1, ih2, ← size_keep, ih3 a[i] b[j]]
      split
      · rfl
      · split <;> rfl
  | case2 i j out h =>
      rw [countCommonAt, if_neg h]
      rfl

theorem countGallopAt_eq {large : Array Nat} : ∀ (xs : List Nat) (j : Nat) (out : Array Nat),
    countGallopAt except large xs j out.size = (gallopCommonAt except large xs j out).map Array.size
  | [], _, _ => rfl
  | x :: xs, j, out => by
      rw [countGallopAt, gallopCommonAt]
      cases gallopAt large x j with
      | error e => rfl
      | ok j =>
          show (if j = large.size then _ else _) = Except.map Array.size (if j = large.size then _ else _)
          split
          · rfl
          · cases Fault.index large j with
            | error e => rfl
            | ok y =>
                show countGallopAt except large xs j (if y = x then tally except out.size x else out.size)
                  = Except.map Array.size (gallopCommonAt except large xs j (if y = x then keep except out x else out))
                rw [← countGallopAt_eq xs j, ← size_keep]
                split <;> rfl

end Steps

/-! ## The operations -/

variable (a b : VertexSet) (except : Option Nat)

theorem Walk.countCommon_eq_map (walk : Walk) :
    walk.countCommon a b except = (walk.intersect a b except #[]).map Array.size := by
  cases walk with
  | merge => exact countCommonAt_eq 0 0 (cleared #[])
  | gallop => exact countGallopAt_eq a.toList 0 (cleared #[])

theorem Walk.countCommon_eq (walk : Walk) : walk.countCommon a b except = .ok (a.common b except).size := by
  rw [countCommon_eq_map, intersect_eq, intersectInto_eq]
  rfl

/-- In each of the cases of where the excepted vertex lies, it comes off once or not at all. -/
theorem Walk.countDifference_eq (walk : Walk) :
    walk.countDifference a b except = .ok (a.difference b except).size := by
  have hsplit := size_common_add_size_difference a b
  have hexcept := size_difference_except a b except
  rw [countDifference]
  split
  · next hempty =>
      have hcommon : (a.common b none).size = 0 := by
        rw [size_common, commonTo_eq_nil fun v _ => not_mem_of_isEmpty hempty v]
        rfl
      have hlooked : exceptedFrom a b except = if except.any a.contains then 1 else 0 := by
        cases except with
        | none => rfl
        | some x =>
            have hx : b.contains x = false :=
              Bool.eq_false_iff.mpr fun h => not_mem_of_isEmpty hempty x (contains_iff.mp h)
            rw [exceptedFrom, hx, Bool.not_false, Bool.and_true]
            rfl
      rw [← hlooked, Word.checkedSub, if_pos (by omega)]
      congr 1
      omega
  · rw [countCommon_eq]
    show (Word.checkedSub a.size (a.common b none).size >>= _) = _
    rw [Word.checkedSub, if_pos (by omega),
      show a.size - (a.common b none).size = (a.difference b none).size by omega]
    cases except with
    | none => rfl
    | some x =>
        rw [exceptedFrom] at hexcept
        show (if a.contains x && !b.contains x then Word.checkedSub _ 1 else Except.ok _) = _
        split at hexcept
        · next hx =>
            rw [if_pos hx, Word.checkedSub, if_pos (by omega)]
            congr 1
            omega
        · next hx => rw [if_neg hx, ← hexcept, Nat.add_zero]

/-- Counting an intersection or a difference gives the size of what making it leaves in any buffer, wherever the
excepted vertex lies, and no subtraction falls below zero. Either walk counts the same. -/
theorem intersectCount_subtractCount (out : Array Nat) :
    a.intersectCount b except = (a.intersectInto b except out).size ∧
    a.subtractCount b except = .ok (a.subtractInto b except out).size ∧
    ∀ walk : Walk, walk.countCommon a b except = .ok (a.intersectInto b except out).size ∧
      walk.countDifference a b except = .ok (a.subtractInto b except out).size := by
  rw [intersectInto_eq, subtractInto_eq]
  exact ⟨intersectCount_eq a b except, subtractCount_eq a b except, fun walk =>
    ⟨walk.countCommon_eq a b except, walk.countDifference_eq a b except⟩⟩

end PatternCount.VertexSet
