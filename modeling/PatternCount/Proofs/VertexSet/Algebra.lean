import PatternCount.Proofs.VertexSet.Galloping
import PatternCount.VertexSet.Algebra

/-!
# What the set operations make

Intersection and difference are computed by folds that choose between two ways to walk the operands. Here each
fold is shown to be a fold over a list that is written down without walking: the elements of the one list that
are in the other (`commonTo`), or not in it (`missingFrom`), less an excepted one. As sets these are
`VertexSet.common` and `VertexSet.difference`, and every operation, whatever its buffer held before, gives
their members or their size:

- `intersectInto_eq`, `intersectCount_eq`;
- `subtractInto_eq`, `subtractCount_eq`. The count of a difference is found from the count of an intersection;
  that no subtraction in it falls below zero is part of the statement.
-/

namespace PatternCount.VertexSet

/-- The elements of the first list that are in the second, other than `except`. -/
def commonTo (except : Option Nat) (xs ys : List Nat) : List Nat :=
  xs.filter fun x => x ∈ ys ∧ except ≠ some x

/-- The elements of the first list that are not in the second, other than `except`. -/
def missingFrom (except : Option Nat) (xs ys : List Nat) : List Nat :=
  xs.filter fun x => x ∉ ys ∧ except ≠ some x

section Lists

variable {except : Option Nat} {x : Nat} {xs ys zs : List Nat}

@[simp] theorem mem_commonTo {v : Nat} :
    v ∈ commonTo except xs ys ↔ v ∈ xs ∧ v ∈ ys ∧ except ≠ some v := by
  simp [commonTo]

@[simp] theorem mem_missingFrom {v : Nat} :
    v ∈ missingFrom except xs ys ↔ v ∈ xs ∧ v ∉ ys ∧ except ≠ some v := by
  simp [missingFrom]

theorem commonTo_congr (h : ∀ v ∈ xs, v ∈ ys ↔ v ∈ zs) :
    commonTo except xs ys = commonTo except xs zs :=
  List.filter_congr fun v hv => by simp only [h v hv]

theorem missingFrom_congr (h : ∀ v ∈ xs, v ∈ ys ↔ v ∈ zs) :
    missingFrom except xs ys = missingFrom except xs zs :=
  List.filter_congr fun v hv => by simp only [h v hv]

theorem commonTo_eq_nil (h : ∀ v ∈ xs, v ∉ ys) : commonTo except xs ys = [] :=
  List.filter_eq_nil_iff.mpr fun v hv => by simp [h v hv]

theorem commonTo_comm (hx : Ascending xs) (hy : Ascending ys) :
    commonTo except xs ys = commonTo except ys xs :=
  (hx.filter _).ext (hy.filter _) fun v => by
    show v ∈ commonTo except xs ys ↔ v ∈ commonTo except ys xs
    rw [mem_commonTo, mem_commonTo]
    exact ⟨fun ⟨h1, h2, h3⟩ => ⟨h2, h1, h3⟩, fun ⟨h1, h2, h3⟩ => ⟨h2, h1, h3⟩⟩

theorem foldl_filter_cons {β : Type} (f : β → Nat → β) (p : Nat → Prop) [DecidablePred p] (acc : β) :
    ((x :: xs).filter fun v => p v).foldl f acc
      = (xs.filter fun v => p v).foldl f (if p x then f acc x else acc) := by
  by_cases h : p x
  · rw [List.filter_cons_of_pos (by simpa using h), List.foldl_cons, if_pos h]
  · rw [List.filter_cons_of_neg (by simpa using h), if_neg h]

theorem mem_dropWhile_lt {z : Nat} (h : x ≤ z) : z ∈ ys.dropWhile (· < x) ↔ z ∈ ys := by
  induction ys with
  | nil => rfl
  | cons y ys ih =>
      by_cases hy : y < x
      · rw [List.dropWhile_cons_of_pos (by simpa using hy), ih, List.mem_cons]
        exact ⟨Or.inr, fun hz => hz.elim (fun heq => by omega) id⟩
      · rw [List.dropWhile_cons_of_neg (by simpa using hy)]

/-- What is left of an ascending list after the elements below `x` begins with `x` if `x` is in it. -/
theorem head?_dropWhile_lt (hy : Ascending ys) :
    (ys.dropWhile (· < x)).head? = some x ↔ x ∈ ys := by
  induction ys with
  | nil => simp
  | cons y ys ih =>
      obtain ⟨hlt, hy⟩ := List.pairwise_cons.mp hy
      by_cases hyx : y < x
      · rw [List.dropWhile_cons_of_pos (by simpa using hyx), ih hy, List.mem_cons]
        exact ⟨Or.inr, fun hz => hz.elim (fun heq => by omega) id⟩
      · rw [List.dropWhile_cons_of_neg (by simpa using hyx), List.head?_cons, Option.some.injEq,
          List.mem_cons]
        exact ⟨fun h => Or.inl h.symm, fun hz => hz.elim Eq.symm fun hm => by
          have := hlt x hm
          omega⟩

theorem ascending_dropWhile (hy : Ascending ys) : Ascending (ys.dropWhile (· < x)) :=
  hy.sublist (List.dropWhile_sublist _)

end Lists

/-! ## The folds -/

section Folds

variable {β : Type} (f : β → Nat → β) (except : Option Nat)

theorem mergeCommon_eq {xs ys : List Nat} (hx : Ascending xs) (hy : Ascending ys) (acc : β) :
    mergeCommon f except xs ys acc = (commonTo except xs ys).foldl f acc := by
  fun_induction mergeCommon f except xs ys acc with
  | case1 x xs y ys acc hlt ih =>
      obtain ⟨hyz, -⟩ := List.pairwise_cons.mp hy
      have hnot : x ∉ y :: ys := fun h => by
        rcases List.mem_cons.mp h with rfl | h
        · exact Nat.lt_irrefl _ hlt
        · have := hyz x h
          omega
      rw [ih hx.of_cons hy, commonTo, commonTo, foldl_filter_cons, if_neg fun h => hnot h.1]
  | case2 x xs y ys acc hlt hgt ih =>
      obtain ⟨hxz, -⟩ := List.pairwise_cons.mp hx
      rw [ih hx hy.of_cons]
      congr 1
      refine commonTo_congr ?_
      intro v hv
      have : y ≠ v := by
        rcases List.mem_cons.mp hv with rfl | hv
        · omega
        · have := hxz v hv
          omega
      rw [List.mem_cons, or_iff_right this.symm]
  | case3 x xs y ys acc hlt hgt ih =>
      obtain rfl : x = y := by omega
      obtain ⟨hxz, -⟩ := List.pairwise_cons.mp hx
      have hrest : commonTo except xs (x :: ys) = commonTo except xs ys :=
        commonTo_congr fun v hv => by
          have := hxz v hv
          rw [List.mem_cons, or_iff_right (by omega)]
      simp only [dite_eq_ite] at ih
      rw [ih hx.of_cons hy.of_cons, ← hrest, commonTo, commonTo, foldl_filter_cons]
      simp only [List.mem_cons, true_or, true_and]
  | case4 xs ys acc hne =>
      cases xs with
      | nil => rfl
      | cons x xs =>
          cases ys with
          | nil => rw [commonTo_eq_nil fun v _ => List.not_mem_nil, List.foldl_nil]
          | cons y ys => exact (hne x xs y ys rfl rfl).elim

theorem gallopCommon_eq {large : Array Nat} (hlarge : Ascending large.toList) :
    ∀ {xs : List Nat} {start : Nat}, Ascending xs → start ≤ large.size → ∀ acc : β,
      gallopCommon f except large xs start acc
        = (commonTo except xs (large.toList.drop start)).foldl f acc
  | [], _, _, _, _ => rfl
  | x :: xs, start, hx, hstart, acc => by
      obtain ⟨hxz, hxs⟩ := List.pairwise_cons.mp hx
      have hdrop : Ascending (large.toList.drop start) := hlarge.sublist (List.drop_sublist ..)
      have hrest := drop_gallop (x := x) hlarge hstart
      have hhead := getElem?_gallop (x := x) hlarge hstart
      rw [gallopCommon]
      cases hj : large[gallop large start x]? with
      | none =>
          -- Every element that is left is below `x`.
          rw [hj] at hhead
          have hnil := List.head?_eq_none_iff.mp hhead.symm
          rw [commonTo_eq_nil, List.foldl_nil]
          intro v hv hmem
          have hle : x ≤ v := by
            rcases List.mem_cons.mp hv with rfl | hv
            · exact Nat.le_refl _
            · exact Nat.le_of_lt (hxz v hv)
          rw [← mem_dropWhile_lt hle, hnil] at hmem
          exact List.not_mem_nil hmem
      | some y =>
          have hmem : y = x ↔ x ∈ large.toList.drop start := by
            rw [← head?_dropWhile_lt hdrop, ← hhead, hj, Option.some.injEq]
          have htail : commonTo except xs (large.toList.drop (gallop large start x))
              = commonTo except xs (large.toList.drop start) :=
            commonTo_congr fun v hv => by rw [hrest, mem_dropWhile_lt (Nat.le_of_lt (hxz v hv))]
          show gallopCommon f except large xs _ _ = _
          rw [gallopCommon_eq hlarge hxs (gallop_spec hlarge hstart).2.1, htail]
          conv_rhs => rw [commonTo, foldl_filter_cons]
          simp only [hmem, commonTo]

theorem mergeDifference_eq : ∀ {xs ys : List Nat}, Ascending xs → Ascending ys → ∀ acc : β,
    mergeDifference f except xs ys acc = (missingFrom except xs ys).foldl f acc
  | [], _, _, _, _ => rfl
  | x :: xs, ys, hx, hy, acc => by
      obtain ⟨hxz, hxs⟩ := List.pairwise_cons.mp hx
      have htail : missingFrom except xs (ys.dropWhile (· < x)) = missingFrom except xs ys :=
        missingFrom_congr fun v hv => mem_dropWhile_lt (Nat.le_of_lt (hxz v hv))
      rw [mergeDifference, mergeDifference_eq hxs (ascending_dropWhile hy), htail]
      conv_rhs => rw [missingFrom, foldl_filter_cons]
      simp only [ne_eq, head?_dropWhile_lt hy, missingFrom]

/-- Galloping through an array passes over the same elements as walking it does. -/
theorem gallopDifference_eq_merge {large : Array Nat} (hlarge : Ascending large.toList) :
    ∀ {xs : List Nat} {start : Nat}, start ≤ large.size → ∀ acc : β,
      gallopDifference f except large xs start acc
        = mergeDifference f except xs (large.toList.drop start) acc
  | [], _, _, _ => rfl
  | x :: xs, start, hstart, acc => by
      rw [gallopDifference, mergeDifference,
        gallopDifference_eq_merge hlarge (gallop_spec hlarge hstart).2.1, drop_gallop hlarge hstart,
        getElem?_gallop hlarge hstart]

theorem foldCommon_eq (a b : VertexSet) (init : β) :
    foldCommon f except a b init = (commonTo except a.toList b.toList).foldl f init := by
  have key : ∀ small large : VertexSet,
      (if small.isEmpty then init
        else if skewed small.size large.size then
          gallopCommon f except large.members small.toList 0 init
        else mergeCommon f except a.toList b.toList init)
        = if small.isEmpty then init
          else if skewed small.size large.size then
            (commonTo except small.toList large.toList).foldl f init
          else (commonTo except a.toList b.toList).foldl f init := by
    intro small large
    rw [gallopCommon_eq f except large.ascending small.ascending_toList (Nat.zero_le _),
      List.drop_zero, mergeCommon_eq f except a.ascending_toList b.ascending_toList]
    rfl
  unfold foldCommon
  by_cases hle : a.size ≤ b.size
  · simp only [if_pos hle, key]
    split
    · next he => rw [commonTo_eq_nil fun v hv => (not_mem_of_isEmpty he v hv).elim, List.foldl_nil]
    · split <;> rfl
  · simp only [if_neg hle, key]
    split
    · next he => rw [commonTo_eq_nil fun v _ => not_mem_of_isEmpty he v, List.foldl_nil]
    · rw [commonTo_comm b.ascending_toList a.ascending_toList]
      split <;> rfl

theorem foldDifference_eq (a b : VertexSet) (init : β) :
    foldDifference f except a b init = (missingFrom except a.toList b.toList).foldl f init := by
  have hmerge := mergeDifference_eq f except a.ascending b.ascending init
  unfold foldDifference
  split
  · rw [gallopDifference_eq_merge f except b.ascending (Nat.zero_le _), List.drop_zero]
    exact hmerge
  · exact hmerge

end Folds

/-! ## The operations -/

def common (a b : VertexSet) (except : Option Nat) : VertexSet :=
  ⟨(commonTo except a.toList b.toList).toArray, a.ascending.filter _⟩

/-- The members of `a` that are not in `b`, other than `except`. -/
def difference (a b : VertexSet) (except : Option Nat) : VertexSet :=
  ⟨(missingFrom except a.toList b.toList).toArray, a.ascending.filter _⟩

section Operations

variable {a b : VertexSet} {except : Option Nat} {v : Nat}

@[simp] theorem mem_common : v ∈ a.common b except ↔ v ∈ a ∧ v ∈ b ∧ except ≠ some v :=
  mem_commonTo

@[simp] theorem mem_difference : v ∈ a.difference b except ↔ v ∈ a ∧ v ∉ b ∧ except ≠ some v :=
  mem_missingFrom

theorem size_common : (a.common b except).size = (commonTo except a.toList b.toList).length := rfl

theorem size_difference :
    (a.difference b except).size = (missingFrom except a.toList b.toList).length := rfl

theorem foldl_count (xs : List Nat) (n : Nat) : xs.foldl (fun n _ => n + 1) n = n + xs.length := by
  induction xs generalizing n with
  | nil => rfl
  | cons x xs ih =>
      rw [List.foldl_cons, ih, List.length_cons]
      omega

theorem foldl_push_cleared (xs : List Nat) (out : Array Nat) :
    xs.foldl Array.push (cleared out) = xs.toArray := by
  rw [List.foldl_push_eq_append']
  simp [cleared]

variable (a b except)

/-- An intersection is made of the common members, whatever the buffer held before. -/
theorem intersectInto_eq (out : Array Nat) :
    a.intersectInto b except out = (a.common b except).members := by
  rw [intersectInto, foldCommon_eq, foldl_push_cleared]
  rfl

theorem subtractInto_eq (out : Array Nat) :
    a.subtractInto b except out = (a.difference b except).members := by
  rw [subtractInto, foldDifference_eq, foldl_push_cleared]
  rfl

theorem intersectCount_eq : a.intersectCount b except = (a.common b except).size := by
  rw [intersectCount, foldCommon_eq, foldl_count, Nat.zero_add]
  rfl

theorem size_common_add_size_difference :
    (a.common b none).size + (a.difference b none).size = a.size := by
  rw [size_common, size_difference, ← length_toList a, commonTo, missingFrom]
  simp only [ne_eq, reduceCtorEq, not_false_eq_true, and_true]
  rw [List.length_eq_length_filter_add (l := a.toList) fun v => decide (v ∈ b.toList)]
  simp

/-- An excepted vertex is missing from a difference if it would be in it. -/
theorem size_difference_except :
    (a.difference b except).size + exceptedFrom a b except = (a.difference b none).size := by
  cases except with
  | none => rfl
  | some x =>
      have hnodup : (missingFrom none a.toList b.toList).Nodup := (a.ascending.filter _).nodup
      have herase : missingFrom (some x) a.toList b.toList
          = (missingFrom none a.toList b.toList).erase x := by
        rw [hnodup.erase_eq_filter, missingFrom, missingFrom, List.filter_filter]
        refine List.filter_congr ?_
        intro v _
        by_cases hvx : v = x
        · simp [hvx]
        · simp [hvx, Ne.symm hvx]
      have hkept : (a.contains x && !b.contains x) = true ↔ x ∈ missingFrom none a.toList b.toList := by
        rw [mem_missingFrom, Bool.and_eq_true, contains_iff, Bool.not_eq_true', ← Bool.not_eq_true,
          contains_iff]
        simp [mem_toList]
      rw [size_difference, size_difference, herase, exceptedFrom, List.length_erase]
      by_cases hx : x ∈ missingFrom none a.toList b.toList
      · have hpos := List.length_pos_of_mem hx
        rw [if_pos hx, if_pos (hkept.mpr hx)]
        omega
      · rw [if_neg hx, if_neg (mt hkept.mp hx), Nat.add_zero]

/-- Counting a difference neither fails nor depends on how the common members are counted. -/
theorem subtractCount_eq : a.subtractCount b except = .ok (a.difference b except).size := by
  have hsplit := size_common_add_size_difference a b
  have hexcept := size_difference_except a b except
  have hkept : (if b.isEmpty then pure a.size else Word.checkedSub a.size (a.intersectCount b none))
      = (.ok (a.difference b none).size : Except Fault Nat) := by
    split
    · next he =>
        have : (a.common b none).size = 0 := by
          rw [size_common, commonTo_eq_nil fun v _ => not_mem_of_isEmpty he v]
          rfl
        rw [show a.size = (a.difference b none).size by omega]
        rfl
    · rw [intersectCount_eq, Word.checkedSub, if_pos (by omega)]
      congr 1
      omega
  have hcount : a.subtractCount b except
      = (if b.isEmpty then pure a.size else Word.checkedSub a.size (a.intersectCount b none)) >>=
        fun kept => Word.checkedSub kept (exceptedFrom a b except) := by
    unfold subtractCount
    split <;> rfl
  rw [hcount, hkept]
  show Word.checkedSub (a.difference b none).size (exceptedFrom a b except) = _
  rw [Word.checkedSub, if_pos (by omega)]
  congr 1
  omega

end Operations

end PatternCount.VertexSet
