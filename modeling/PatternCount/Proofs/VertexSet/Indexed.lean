import PatternCount.Proofs.Outcome
import PatternCount.Proofs.VertexSet.Algebra

/-!
# The set operations by index

An intersection or a difference can be made by walking two arrays side by side, or by galloping through the one for
the elements of the other. Here both ways are written with indices: every element is looked up by `Fault.index`, and
what is bisected has to be a range of the array, so that to go past an end would be a fault. There is none, and both
ways make the same of any two sets, whatever their sizes: the ascending list of the elements that are asked for
(`intersectInto_subtractInto`).

Where a walk stands in an array is an index, and what it has still to see are the elements from there on. In these
terms each walk is one of the folds over lists (`mergeCommonAt_eq`, `gallopCommonAt_eq`, `differenceAt_eq`).
-/

namespace PatternCount.VertexSet

/-! ## Walks by index -/

section Walks

variable (except : Option Nat)

/-- The buffer with one more element, unless it is the excepted one. -/
def keep (out : Array Nat) (x : Nat) : Array Nat := if except ≠ some x then out.push x else out

/-- Walks two arrays side by side, from index `i` of the one and `j` of the other on. -/
def mergeCommonAt (a b : Array Nat) (i j : Nat) (out : Array Nat) : Except Fault (Array Nat) :=
  if i < a.size ∧ j < b.size then do
    let x ← Fault.index a i
    let y ← Fault.index b j
    if x < y then mergeCommonAt a b (i + 1) j out
    else if y < x then mergeCommonAt a b i (j + 1) out
    else mergeCommonAt a b (i + 1) (j + 1) (keep except out x)
  else
    .ok out
termination_by (a.size - i) + (b.size - j)

theorem min_size_le (xs : Array Nat) (i : Nat) : min i xs.size ≤ xs.size := Nat.min_le_right ..

/-- The first index from `j` on whose element is not below `x`, by galloping. What is bisected in the end has to be
a range of the array. -/
def gallopAt (xs : Array Nat) (x j : Nat) : Except Fault Nat :=
  let (lo, hi) := bracket xs x 0 j j
  if lo ≤ min hi xs.size then .ok (lowerBound xs x lo (min hi xs.size) (min_size_le xs hi))
  else .error (.indexOutOfBounds (min hi xs.size) lo)

/-- The first index from `j` on whose element is not below `x`, one element after another. -/
def advanceAt (xs : Array Nat) (x j : Nat) : Except Fault Nat :=
  if j < xs.size then do
    let y ← Fault.index xs j
    if y < x then advanceAt xs x (j + 1) else return j
  else
    .ok j
termination_by xs.size - j

/-- Gallops through an array for the elements of a list. -/
def gallopCommonAt (large : Array Nat) : List Nat → (j : Nat) → (out : Array Nat) → Except Fault (Array Nat)
  | [], _, out => .ok out
  | x :: xs, j, out => do
      let j ← gallopAt large x j
      if j = large.size then
        return out
      let y ← Fault.index large j
      gallopCommonAt large xs j (if y = x then keep except out x else out)

/-- Whether `x` stands at index `j`, which may be the end. -/
def standsAt (xs : Array Nat) (x j : Nat) : Except Fault Bool :=
  if j < xs.size then do return (← Fault.index xs j) = x else .ok false

/-- Keeps the elements of a list that are not in an array, seeking each of them from where the last one led to. -/
def differenceAt (b : Array Nat) (seek : Nat → Nat → Except Fault Nat) :
    List Nat → (j : Nat) → (out : Array Nat) → Except Fault (Array Nat)
  | [], _, out => .ok out
  | x :: xs, j, out => do
      let j ← seek x j
      let found ← standsAt b x j
      differenceAt b seek xs j (if found then out else keep except out x)

end Walks

/-- The two ways to go through a pair of sets. -/
inductive Walk where
  | merge
  | gallop

/-- An intersection by index. Galloping goes through the second set. -/
def Walk.intersect (a b : VertexSet) (except : Option Nat) (out : Array Nat) : Walk → Except Fault (Array Nat)
  | merge => mergeCommonAt except a.members b.members 0 0 (cleared out)
  | gallop => gallopCommonAt except b.members a.toList 0 (cleared out)

/-- A difference by index. -/
def Walk.subtract (a b : VertexSet) (except : Option Nat) (out : Array Nat) : Walk → Except Fault (Array Nat)
  | merge => differenceAt except b.members (advanceAt b.members) a.toList 0 (cleared out)
  | gallop => differenceAt except b.members (gallopAt b.members) a.toList 0 (cleared out)

/-! ## What the walks make -/

variable {except : Option Nat} {xs : Array Nat} {x : Nat}

theorem mergeCommonAt_eq {a b : Array Nat} (i j : Nat) (out : Array Nat) :
    mergeCommonAt except a b i j out
      = .ok (mergeCommon Array.push except (a.toList.drop i) (b.toList.drop j) out) := by
  fun_induction mergeCommonAt except a b i j out with
  | case1 i j out h ih1 ih2 ih3 =>
      obtain ⟨hi, hj⟩ := h
      have ha : a.toList.drop i = a[i] :: a.toList.drop (i + 1) := List.drop_eq_getElem_cons (by simpa using hi)
      have hb : b.toList.drop j = b[j] :: b.toList.drop (j + 1) := List.drop_eq_getElem_cons (by simpa using hj)
      rw [Fault.index_eq_ok hi, Fault.index_eq_ok hj]
      show (if a[i] < b[j] then _ else if b[j] < a[i] then _ else _) = _
      rw [ih1, ih2, ih3 a[i] b[j], ha, hb, mergeCommon]
      split
      · rfl
      · split <;> rfl
  | case2 i j out h =>
      rcases Nat.lt_or_ge i a.size with hi | hi
      · have hj : b.toList.drop j = [] := List.drop_eq_nil_of_le (by simpa using fun hj => h ⟨hi, hj⟩)
        rw [hj, mergeCommon.eq_2]
        simp
      · have hi' : a.toList.drop i = [] := List.drop_eq_nil_of_le (by simpa using hi)
        rw [hi', mergeCommon.eq_2]
        simp

/-- Galloping bisects a range of the array. -/
theorem gallopAt_eq (hasc : Ascending xs.toList) {j : Nat} (hj : j ≤ xs.size) :
    gallopAt xs x j = .ok (gallop xs j x) := by
  rcases hb : bracket xs x 0 j j with ⟨lo, hi⟩
  obtain ⟨-, hlo, -⟩ := bracket_spec hasc (Nat.le_refl j) (Nat.le_refl j) hj (fun i _ h1 h2 => by omega) hb
  rw [gallopAt, gallop, hb]
  exact if_pos hlo

/-- Both ways of seeking pass over the elements below what is sought. -/
def Seeks (xs : Array Nat) (seek : Nat → Nat → Except Fault Nat) : Prop :=
  ∀ x j, j ≤ xs.size → ∃ j', seek x j = .ok j' ∧ j' ≤ xs.size ∧
    xs.toList.drop j' = (xs.toList.drop j).dropWhile (· < x)

theorem seeks_gallopAt (hasc : Ascending xs.toList) : Seeks xs (gallopAt xs) := fun _ _ hj =>
  ⟨_, gallopAt_eq hasc hj, (gallop_spec hasc hj).2.1, drop_gallop hasc hj⟩

theorem seeks_advanceAt : Seeks xs (advanceAt xs) := by
  intro x j hj
  fun_induction advanceAt xs x j with
  | case1 j hlt ih =>
      have hdrop : xs.toList.drop j = xs[j] :: xs.toList.drop (j + 1) :=
        List.drop_eq_getElem_cons (by simpa using hlt)
      rw [Fault.index_eq_ok hlt, hdrop]
      by_cases hx : xs[j] < x
      · rw [List.dropWhile_cons_of_pos (by simpa using hx)]
        show ∃ j', (if xs[j] < x then _ else _) = _ ∧ _
        rw [if_pos hx]
        exact ih hlt
      · rw [List.dropWhile_cons_of_neg (by simpa using hx)]
        show ∃ j', (if xs[j] < x then _ else _) = _ ∧ _
        rw [if_neg hx]
        exact ⟨j, rfl, hj, hdrop⟩
  | case2 j hge =>
      have hnil : xs.toList.drop j = [] := List.drop_eq_nil_of_le (by simpa using hge)
      exact ⟨j, rfl, hj, by rw [hnil, List.dropWhile_nil]⟩

theorem gallopCommonAt_eq {large : Array Nat} (hasc : Ascending large.toList) :
    ∀ (xs : List Nat) {j : Nat} (out : Array Nat), j ≤ large.size →
      gallopCommonAt except large xs j out = .ok (gallopCommon Array.push except large xs j out)
  | [], _, _, _ => rfl
  | x :: xs, j, out, hj => by
      have hle := (gallop_spec (x := x) hasc hj).2.1
      rw [gallopCommonAt, gallopCommon, gallopAt_eq hasc hj]
      show (if gallop large j x = large.size then _ else _) = _
      rcases Nat.lt_or_eq_of_le hle with hlt | heq
      · rw [if_neg (Nat.ne_of_lt hlt), Fault.index_eq_ok hlt]
        simp only [Array.getElem?_eq_getElem hlt]
        show gallopCommonAt _ _ _ _ (if large[gallop large j x] = x then keep except out x else out) = _
        rw [gallopCommonAt_eq hasc xs _ hle, keep]
        by_cases hx : large[gallop large j x] = x <;> simp [hx]
      · rw [if_pos heq]
        simp only [Array.getElem?_eq_none (Nat.le_of_eq heq.symm)]
        rfl

theorem standsAt_eq {j : Nat} : standsAt xs x j = .ok (decide ((xs.toList.drop j).head? = some x)) := by
  rw [standsAt, List.head?_drop, Array.getElem?_toList]
  split
  · next hlt =>
      rw [Fault.index_eq_ok hlt, Array.getElem?_eq_getElem hlt]
      simp [bind, Except.bind, pure, Except.pure]
  · next hge =>
      rw [Array.getElem?_eq_none (Nat.le_of_not_lt hge)]
      rfl

theorem differenceAt_eq {b : Array Nat} {seek : Nat → Nat → Except Fault Nat} (hseek : Seeks b seek) :
    ∀ (xs : List Nat) {j : Nat} (out : Array Nat), j ≤ b.size →
      differenceAt except b seek xs j out
        = .ok (mergeDifference Array.push except xs (b.toList.drop j) out)
  | [], _, _, _ => rfl
  | x :: xs, j, out, hj => by
      obtain ⟨j', hj', hle, hdrop⟩ := hseek x j hj
      rw [differenceAt, mergeDifference, hj', ← hdrop]
      show (standsAt b x j' >>= _) = _
      rw [standsAt_eq]
      show differenceAt _ _ _ _ _ (if decide _ = true then out else keep except out x) = _
      rw [differenceAt_eq hseek xs _ hle, keep]
      by_cases hx : (b.toList.drop j').head? = some x
      · rw [if_pos (decide_eq_true hx), if_neg fun h => h.1 hx]
      · rw [if_neg fun h => hx (of_decide_eq_true h)]
        simp only [ne_eq, hx, not_false_eq_true, true_and]

/-! ## The operations -/

variable (a b : VertexSet)

/-- Whichever way the sets are gone through, no look goes past an end, and what is made is the intersection. -/
theorem Walk.intersect_eq (walk : Walk) (out : Array Nat) :
    walk.intersect a b except out = .ok (a.intersectInto b except out) := by
  have hmade : a.intersectInto b except out
      = (commonTo except a.toList b.toList).foldl Array.push (cleared out) := foldCommon_eq ..
  cases walk with
  | merge =>
      rw [intersect, mergeCommonAt_eq, List.drop_zero, List.drop_zero, hmade]
      exact congrArg Except.ok (mergeCommon_eq _ _ a.ascending b.ascending _)
  | gallop =>
      rw [intersect, gallopCommonAt_eq b.ascending _ _ (Nat.zero_le _), hmade,
        gallopCommon_eq _ _ b.ascending a.ascending_toList (Nat.zero_le _)]
      rfl

theorem Walk.subtract_eq (walk : Walk) (out : Array Nat) :
    walk.subtract a b except out = .ok (a.subtractInto b except out) := by
  have hmade : a.subtractInto b except out
      = mergeDifference Array.push except a.toList b.toList (cleared out) := by
    rw [subtractInto, foldDifference_eq, mergeDifference_eq _ _ a.ascending_toList b.ascending_toList]
  cases walk with
  | merge =>
      rw [subtract, differenceAt_eq seeks_advanceAt _ _ (Nat.zero_le _), hmade]
      rfl
  | gallop =>
      rw [subtract, differenceAt_eq (seeks_gallopAt b.ascending) _ _ (Nat.zero_le _), hmade]
      rfl

/-- Whatever the buffer held before, an intersection leaves the ascending list of the vertices in both sets and a
difference that of the vertices in the first set only, in either case without the excepted one. Both ways of going
through the sets make this of any two sets, without a look past an end, and the intersection does not depend on the
order of the two. -/
theorem intersectInto_subtractInto (except : Option Nat) (out : Array Nat) :
    (Ascending (a.intersectInto b except out).toList ∧
      ∀ v, v ∈ a.intersectInto b except out ↔ v ∈ a ∧ v ∈ b ∧ except ≠ some v) ∧
    (Ascending (a.subtractInto b except out).toList ∧
      ∀ v, v ∈ a.subtractInto b except out ↔ v ∈ a ∧ v ∉ b ∧ except ≠ some v) ∧
    (∀ walk : Walk, walk.intersect a b except out = .ok (a.intersectInto b except out) ∧
      walk.subtract a b except out = .ok (a.subtractInto b except out)) ∧
    ∀ out', b.intersectInto a except out' = a.intersectInto b except out := by
  refine ⟨?_, ?_, fun walk => ⟨walk.intersect_eq a b out, walk.subtract_eq a b out⟩, fun out' => ?_⟩
  · rw [intersectInto_eq]
    exact ⟨(a.common b except).ascending, fun v => mem_members.trans mem_common⟩
  · rw [subtractInto_eq]
    exact ⟨(a.difference b except).ascending, fun v => mem_members.trans mem_difference⟩
  · rw [intersectInto_eq, intersectInto_eq]
    exact congrArg List.toArray (commonTo_comm b.ascending_toList a.ascending_toList)

end PatternCount.VertexSet
