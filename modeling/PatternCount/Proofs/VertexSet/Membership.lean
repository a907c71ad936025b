import Mathlib.Data.List.Sort
import PatternCount.VertexSet.Basic

/-!
# Members of a vertex set

A vertex set is read here as the set of its members: `v ∈ s` says that `v` occurs in the array of `s`, and
since the array ascends, the members determine it (`VertexSet.ext_mem`). Everything that is found by
bisection is then said in terms of members:

- **rank** (`lt_rank_iff`): the elements before the rank of `x` are exactly those below `x`;
- **look-up** (`position?_eq_some_iff`, `contains_iff`): a position is an index at which the vertex stands;
- **cuts** (`mem_below`, `mem_above`, `Run.mem_toSet_below`, `Run.mem_toSet_above`): cutting a set or a run at
  a vertex keeps the members on one side of it.
-/

namespace PatternCount

/-! ## Ascending lists -/

theorem Ascending.nodup {xs : List Nat} (h : Ascending xs) : xs.Nodup :=
  h.imp fun hlt => Nat.ne_of_lt hlt

/-- An ascending list is determined by its elements. -/
theorem Ascending.ext {xs ys : List Nat} (hx : Ascending xs) (hy : Ascending ys)
    (h : ∀ v, v ∈ xs ↔ v ∈ ys) : xs = ys :=
  List.Perm.eq_of_pairwise (fun _ _ _ _ hab hba => (Nat.lt_asymm hab hba).elim) hx hy
    ((List.perm_ext_iff_of_nodup hx.nodup hy.nodup).mpr h)

theorem Ascending.filter {xs : List Nat} (h : Ascending xs) (p : Nat → Bool) :
    Ascending (xs.filter p) :=
  List.Pairwise.filter p h

theorem Ascending.getElem_lt {xs : Array Nat} (h : Ascending xs.toList) {i j : Nat} (hij : i < j)
    (hj : j < xs.size) : xs[i] < xs[j] := by
  have := List.pairwise_iff_getElem.mp h i j (by simp; omega) (by simpa using hj) hij
  simpa using this

theorem Ascending.getElem_le {xs : Array Nat} (h : Ascending xs.toList) {i j : Nat} (hij : i ≤ j)
    (hj : j < xs.size) : xs[i] ≤ xs[j] := by
  rcases Nat.lt_or_eq_of_le hij with hlt | rfl
  · exact Nat.le_of_lt (h.getElem_lt hlt hj)
  · exact Nat.le_refl _

namespace VertexSet

/-! ## Members -/

instance : Membership Nat VertexSet := ⟨fun s v => v ∈ s.toList⟩

instance {v : Nat} {s : VertexSet} : Decidable (v ∈ s) := inferInstanceAs (Decidable (v ∈ s.toList))

instance : HasSubset VertexSet := ⟨fun s t => ∀ v ∈ s, v ∈ t⟩

instance {s t : VertexSet} : Decidable (s ⊆ t) := inferInstanceAs (Decidable (∀ v ∈ s.toList, v ∈ t.toList))

theorem mem_toList {s : VertexSet} {v : Nat} : v ∈ s.toList ↔ v ∈ s := Iff.rfl

theorem mem_members {s : VertexSet} {v : Nat} : v ∈ s.members ↔ v ∈ s :=
  Array.mem_toList_iff.symm

theorem mem_iff_getElem? {s : VertexSet} {v : Nat} : v ∈ s ↔ ∃ i : Nat, s.members[i]? = some v := by
  rw [← mem_members, Array.mem_iff_getElem?]

theorem ascending_toList (s : VertexSet) : Ascending s.toList := s.ascending

theorem length_toList (s : VertexSet) : s.toList.length = s.size :=
  Array.length_toList

/-- Going through the indices of a set goes through its members. -/
theorem map_range_members {β : Type} (s : VertexSet) (f : Nat → β) :
    (List.range s.size).map (fun i => f (s.members[i]?.getD 0)) = s.toList.map f := by
  refine List.ext_getElem (by simp [length_toList]) ?_
  intro i h₁ h₂
  have hi : i < s.members.size := by
    rw [List.length_map, List.length_range] at h₁
    exact h₁
  simp [toList, hi]

theorem ext_mem {s t : VertexSet} (h : ∀ v, v ∈ s ↔ v ∈ t) : s = t := by
  obtain ⟨xs, hx⟩ := s
  obtain ⟨ys, hy⟩ := t
  have : xs = ys := Array.toList_inj.mp (hx.ext hy h)
  subst this
  rfl

theorem isEmpty_eq_false_iff {s : VertexSet} : s.isEmpty = false ↔ ∃ v, v ∈ s := by
  rw [isEmpty, Array.isEmpty_eq_false_iff_exists_mem]
  simp only [mem_members]

theorem not_mem_of_isEmpty {s : VertexSet} (h : s.isEmpty = true) (v : Nat) : v ∉ s := fun hv => by
  rw [isEmpty_eq_false_iff.mpr ⟨v, hv⟩] at h
  cases h

theorem ofArray_eq_ok_iff {xs : Array Nat} {s : VertexSet} : ofArray xs = .ok s ↔ s.members = xs := by
  unfold ofArray
  constructor
  · intro h
    split at h
    · obtain rfl := Except.ok.inj h
      rfl
    · cases h
  · rintro rfl
    rw [dif_pos s.ascending]

@[simp] theorem ofArray_members (s : VertexSet) : ofArray s.members = .ok s :=
  ofArray_eq_ok_iff.mpr rfl

@[simp] theorem mem_upTo {n v : Nat} : v ∈ upTo n ↔ v < n := by
  rw [← mem_members, upTo, Array.mem_range]

@[simp] theorem mem_ofUnsorted {xs : List Nat} {v : Nat} : v ∈ ofUnsorted xs ↔ v ∈ xs := by
  show v ∈ (dropRepeats (xs.mergeSort (· ≤ ·))).toArray.toList ↔ v ∈ xs
  rw [List.toList_toArray, mem_dropRepeats, List.mem_mergeSort]

/-! ## Bisection -/

/-- Bisection stops where the elements below `x` end: what it has passed over is below `x`, and what it has
left behind on the other side is not. -/
theorem lowerBound_spec {xs : Array Nat} {x : Nat} (hasc : Ascending xs.toList) {lo hi : Nat}
    (hle : lo ≤ hi) (h : hi ≤ xs.size) :
    lo ≤ lowerBound xs x lo hi h ∧ lowerBound xs x lo hi h ≤ hi
      ∧ (∀ i (hs : i < xs.size), lo ≤ i → i < lowerBound xs x lo hi h → xs[i] < x)
      ∧ (∀ i (hs : i < xs.size), lowerBound xs x lo hi h ≤ i → i < hi → x ≤ xs[i]) := by
  fun_induction lowerBound xs x lo hi h with
  | case1 lo hi h hlt mid hx ih =>
      obtain ⟨h1, h2, h3, h4⟩ := ih (by omega)
      refine ⟨by omega, h2, ?_, h4⟩
      intro i hs hi hr
      rcases Nat.lt_or_ge mid i with hm | hm
      · exact h3 i hs hm hr
      · exact Nat.lt_of_le_of_lt (hasc.getElem_le hm (by omega)) hx
  | case2 lo hi h hlt mid hx ih =>
      obtain ⟨h1, h2, h3, h4⟩ := ih (by omega)
      refine ⟨h1, by omega, h3, ?_⟩
      intro i hs hr hi
      rcases Nat.lt_or_ge i mid with hm | hm
      · exact h4 i hs hr hm
      · exact Nat.le_trans (Nat.le_of_not_lt hx) (hasc.getElem_le hm hs)
  | case3 lo hi h hlt =>
      exact ⟨Nat.le_refl _, hle, fun i _ h1 h2 => by omega, fun i _ h1 h2 => by omega⟩

theorem lt_rank_iff {s : VertexSet} {x i : Nat} (hs : i < s.members.size) :
    i < s.rank x ↔ s.members[i] < x := by
  obtain ⟨-, -, hbelow, habove⟩ := lowerBound_spec (x := x) s.ascending (Nat.zero_le _) (Nat.le_refl _)
  constructor
  · exact hbelow i hs (Nat.zero_le _)
  · intro h
    rcases Nat.lt_or_ge i (s.rank x) with hr | hr
    · exact hr
    · exact absurd (habove i hs hr hs) (Nat.not_le_of_lt h)

theorem position?_eq_some_iff {s : VertexSet} {v i : Nat} :
    s.position? v = some i ↔ s.members[i]? = some v := by
  unfold position?
  constructor
  · intro h
    split at h
    · next hv =>
        obtain rfl := Option.some.inj h
        exact hv
    · cases h
  · intro h
    obtain ⟨hs, hv⟩ := Array.getElem?_eq_some_iff.mp h
    have hrank : s.rank v = i := by
      rcases Nat.lt_trichotomy (s.rank v) i with hlt | heq | hgt
      · have := s.ascending.getElem_lt hlt hs
        have := mt (lt_rank_iff (x := v) (Nat.lt_trans hlt hs)).mpr (Nat.lt_irrefl _)
        omega
      · exact heq
      · have := (lt_rank_iff (x := v) hs).mp hgt
        omega
    rw [hrank, if_pos h]

theorem position?_eq_none_iff {s : VertexSet} {v : Nat} : s.position? v = none ↔ v ∉ s := by
  rw [mem_iff_getElem?, Option.eq_none_iff_forall_ne_some]
  simp only [ne_eq, position?_eq_some_iff, not_exists]

@[simp] theorem contains_iff {s : VertexSet} {v : Nat} : s.contains v = true ↔ v ∈ s := by
  rw [contains, Option.isSome_iff_exists, mem_iff_getElem?]
  simp only [position?_eq_some_iff]

/-! ## Cuts -/

theorem mem_run {s : VertexSet} {start stop v : Nat} :
    v ∈ s.run start stop ↔ ∃ i : Nat, start ≤ i ∧ i < stop ∧ s.members[i]? = some v := by
  rw [mem_iff_getElem?]
  simp only [run, Array.getElem?_extract]
  constructor
  · rintro ⟨i, hi⟩
    split at hi
    · exact ⟨start + i, by omega, by omega, hi⟩
    · cases hi
  · rintro ⟨i, h1, h2, hi⟩
    have hs := (Array.getElem?_eq_some_iff.mp hi).1
    refine ⟨i - start, ?_⟩
    rw [if_pos (by omega), Nat.add_sub_cancel' h1]
    exact hi

@[simp] theorem mem_below {s : VertexSet} {x v : Nat} : v ∈ s.below x ↔ v ∈ s ∧ v < x := by
  rw [below, mem_run, mem_iff_getElem?]
  constructor
  · rintro ⟨i, -, hr, hi⟩
    obtain ⟨hs, rfl⟩ := Array.getElem?_eq_some_iff.mp hi
    exact ⟨⟨i, hi⟩, (lt_rank_iff hs).mp hr⟩
  · rintro ⟨⟨i, hi⟩, hlt⟩
    obtain ⟨hs, rfl⟩ := Array.getElem?_eq_some_iff.mp hi
    exact ⟨i, Nat.zero_le _, (lt_rank_iff hs).mpr hlt, hi⟩

@[simp] theorem mem_above {s : VertexSet} {x v : Nat} : v ∈ s.above x ↔ v ∈ s ∧ x < v := by
  rw [above, mem_run, mem_iff_getElem?]
  constructor
  · rintro ⟨i, hr, -, hi⟩
    obtain ⟨hs, rfl⟩ := Array.getElem?_eq_some_iff.mp hi
    have := mt (lt_rank_iff hs).mpr (Nat.not_lt_of_le hr)
    exact ⟨⟨i, hi⟩, by omega⟩
  · rintro ⟨⟨i, hi⟩, hlt⟩
    obtain ⟨hs, rfl⟩ := Array.getElem?_eq_some_iff.mp hi
    have := mt (lt_rank_iff (x := x + 1) hs).mp (by omega)
    exact ⟨i, by omega, hs, hi⟩

namespace Run

variable {r : Run}

@[simp] theorem mem_toSet_below {x v : Nat} : v ∈ (r.below x).toSet ↔ v ∈ r.toSet ∧ v < x := by
  show v ∈ r.set.run r.start (min r.stop (r.set.rank x)) ↔ v ∈ r.set.run r.start r.stop ∧ v < x
  rw [mem_run, mem_run]
  constructor
  · rintro ⟨i, h1, h2, hi⟩
    obtain ⟨hs, rfl⟩ := Array.getElem?_eq_some_iff.mp hi
    exact ⟨⟨i, h1, by omega, hi⟩, (lt_rank_iff hs).mp (by omega)⟩
  · rintro ⟨⟨i, h1, h2, hi⟩, hlt⟩
    obtain ⟨hs, rfl⟩ := Array.getElem?_eq_some_iff.mp hi
    have := (lt_rank_iff hs).mpr hlt
    exact ⟨i, h1, by omega, hi⟩

@[simp] theorem mem_toSet_above {x v : Nat} : v ∈ (r.above x).toSet ↔ v ∈ r.toSet ∧ x < v := by
  show v ∈ r.set.run (max r.start (r.set.rank (x + 1))) r.stop ↔ v ∈ r.set.run r.start r.stop ∧ x < v
  rw [mem_run, mem_run]
  constructor
  · rintro ⟨i, h1, h2, hi⟩
    obtain ⟨hs, rfl⟩ := Array.getElem?_eq_some_iff.mp hi
    have := mt (lt_rank_iff (x := x + 1) hs).mpr (by omega)
    exact ⟨⟨i, by omega, h2, hi⟩, by omega⟩
  · rintro ⟨⟨i, h1, h2, hi⟩, hlt⟩
    obtain ⟨hs, rfl⟩ := Array.getElem?_eq_some_iff.mp hi
    have := mt (lt_rank_iff (x := x + 1) hs).mp (by omega)
    exact ⟨i, by omega, h2, hi⟩

@[simp] theorem contains_iff {v : Nat} : r.contains v = true ↔ v ∈ r.toSet := by
  show _ ↔ v ∈ r.set.run r.start r.stop
  rw [mem_run, contains, Option.any_eq_true]
  simp only [position?_eq_some_iff, Bool.and_eq_true, decide_eq_true_eq]
  constructor
  · rintro ⟨i, hi, h1, h2⟩
    exact ⟨i, h1, h2, hi⟩
  · rintro ⟨i, h1, h2, hi⟩
    exact ⟨i, hi, h1, h2⟩

end Run

end VertexSet

end PatternCount
