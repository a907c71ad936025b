import Mathlib.Data.List.Basic
import PatternCount.Proofs.Plan.Restrictions

/-!
# Chains of restrictions

What `Restriction.closure` finds for levels is said here of the positions that are bound at them. A chain of
restrictions, each of which starts from the position where the one before has ended, forces the vertex at its first
position below the one at its last (`Forced`); and whatever the order of the positions is, the closure of the table has
those pairs of levels in it and no others (`mem_closure_table_iff`).

A table is closed over a level by changing all rows at once. They may as well be changed one after the other, each with
those before it already changed (`closureInPlace_eq`): the only row that the others are changed by is that of the level
itself, and to that row nothing is added.
-/

namespace PatternCount.Restriction

/-! ## Row by row -/

/-- Adds what is above level `mid` to the row of level `k`, if that has `mid` in it. -/
def closeRow (mid : Nat) (above : Array PositionSet) (k : Nat) : Array PositionSet :=
  if mid ∈ above.getD k .empty then above.modify k (·.union (above.getD mid .empty)) else above

def closeOverInPlace (above : Array PositionSet) (mid : Nat) : Array PositionSet :=
  (List.range above.size).foldl (closeRow mid) above

/-- The closure of a table whose rows are changed one after the other. -/
def closureInPlace (above : Array PositionSet) : Array PositionSet :=
  (List.range above.size).foldl closeOverInPlace above

section Rows

variable {above : Array PositionSet} {mid k : Nat}

theorem getElem?_closeOver : (closeOver above mid)[k]? = above[k]?.map fun row =>
    if mid ∈ row then row.union (above.getD mid .empty) else row := by
  simp only [closeOver, Array.getElem?_map]

/-- The row of the level itself stays as it is. -/
theorem getElem?_closeOver_self : (closeOver above mid)[mid]? = above[mid]? := by
  rw [getElem?_closeOver]
  cases hrow : above[mid]? with
  | none => rfl
  | some row =>
      have hself : row.union row = row := congrArg PositionSet.mk (Nat.or_self row.bits)
      simp [hrow, hself]

theorem getElem?_closeRow : (closeRow mid above k)[k]? = above[k]?.map fun row =>
    if mid ∈ row then row.union (above.getD mid .empty) else row := by
  unfold closeRow
  cases hrow : above[k]? with
  | none =>
      have hempty : above.getD k .empty = .empty := by simp [hrow]
      rw [hempty, if_neg (PositionSet.not_mem_empty mid), hrow]
      rfl
  | some row =>
      have hsame : above.getD k .empty = row := by simp [hrow]
      rw [hsame, Option.map_some]
      split
      · rw [Array.getElem?_modify, if_pos rfl, hrow]
        rfl
      · exact hrow

theorem getElem?_closeRow_of_ne {i : Nat} (h : k ≠ i) : (closeRow mid above k)[i]? = above[i]? := by
  unfold closeRow
  split
  · rw [Array.getElem?_modify, if_neg h]
  · rfl

/-- The rows that have been gone through are those of the closed table, and the others have not been touched. -/
theorem getElem?_foldl_closeRow (n : Nat) {i : Nat} : ((List.range n).foldl (closeRow mid) above)[i]? =
    if i < n then (closeOver above mid)[i]? else above[i]? := by
  induction n generalizing i with
  | zero => rfl
  | succ n ih =>
      have hmid : ((List.range n).foldl (closeRow mid) above).getD mid .empty = above.getD mid .empty := by
        simp only [Array.getD_eq_getD_getElem?, ih, getElem?_closeOver_self, ite_self]
      rw [List.range_succ, List.foldl_append, List.foldl_cons, List.foldl_nil]
      by_cases hi : n = i
      · subst hi
        rw [getElem?_closeRow, hmid, ih, if_neg (Nat.lt_irrefl n), if_pos (Nat.lt_succ_self n), getElem?_closeOver]
      · rw [getElem?_closeRow_of_ne hi, ih]
        have hlt : i < n ↔ i < n + 1 := by omega
        simp only [hlt]

theorem closeOverInPlace_eq (above : Array PositionSet) (mid : Nat) :
    closeOverInPlace above mid = closeOver above mid := by
  apply Array.ext_getElem?
  intro i
  rw [closeOverInPlace, getElem?_foldl_closeRow]
  split
  · rfl
  · next hi =>
      rw [getElem?_closeOver, Array.getElem?_eq_none (Nat.le_of_not_lt hi)]
      rfl

/-- It makes no difference to the closure that the rows are changed one after the other. -/
theorem closureInPlace_eq (above : Array PositionSet) : closureInPlace above = closure above := by
  have hsame : closeOverInPlace = closeOver := funext fun above => funext fun mid => closeOverInPlace_eq above mid
  rw [closureInPlace, hsame, closure]

end Rows

/-! ## Chains -/

/-- A chain of restrictions leads from the position at level `k` up to the one at level `i`. -/
def Forced (order : List Nat) (restrictions : List (Nat × Nat)) (k i : Nat) : Prop :=
  ∃ b a, order[k]? = some b ∧ order[i]? = some a ∧
    Relation.TransGen (fun b a => (a, b) ∈ restrictions) b a

section Chains

variable {order : List Nat} {restrictions : List (Nat × Nat)} {k i : Nat}

/-- A level is above another in the table if a restriction says so of the positions that are bound there. -/
theorem above_table_iff_restricted (horder : order.Nodup) (hr : ∀ r ∈ restrictions, r.1 ∈ order ∧ r.2 ∈ order) :
    Above (table order restrictions) k i ↔
      ∃ b a, order[k]? = some b ∧ order[i]? = some a ∧ (a, b) ∈ restrictions := by
  rw [above_table_iff]
  constructor
  · rintro ⟨-, ⟨a, b⟩, hab, rfl, rfl⟩
    obtain ⟨ha, hb⟩ := hr _ hab
    exact ⟨b, a, List.getElem?_idxOf hb, List.getElem?_idxOf ha, hab⟩
  · rintro ⟨b, a, hb, ha, hab⟩
    obtain ⟨hk, rfl⟩ := List.getElem?_eq_some_iff.mp hb
    obtain ⟨hi, rfl⟩ := List.getElem?_eq_some_iff.mp ha
    exact ⟨hk, _, hab, (horder.idxOf_getElem k hk).symm, (horder.idxOf_getElem i hi).symm⟩

/-- Chains of steps between levels are chains of restrictions between the positions bound there. -/
theorem transGen_table_iff (horder : order.Nodup) (hr : ∀ r ∈ restrictions, r.1 ∈ order ∧ r.2 ∈ order) :
    Relation.TransGen (Above (table order restrictions)) k i ↔ Forced order restrictions k i := by
  constructor
  · intro h
    induction h with
    | single hki =>
        obtain ⟨b, a, hb, ha, hab⟩ := (above_table_iff_restricted horder hr).mp hki
        exact ⟨b, a, hb, ha, .single hab⟩
    | tail _ hji ih =>
        obtain ⟨b, c, hb, hc, hchain⟩ := ih
        obtain ⟨c', a, hc', ha, hac⟩ := (above_table_iff_restricted horder hr).mp hji
        obtain rfl := Option.some.inj (hc.symm.trans hc')
        exact ⟨b, a, hb, ha, hchain.tail hac⟩
  · rintro ⟨b, a, hb, ha, hchain⟩
    induction hchain generalizing i with
    | single hab => exact .single ((above_table_iff_restricted horder hr).mpr ⟨b, _, hb, ha, hab⟩)
    | @tail c a _ hac ih =>
        -- Every position of a chain is bound at some level.
        obtain ⟨j, hc⟩ := List.getElem?_of_mem (hr _ hac).2
        exact (ih hc).tail ((above_table_iff_restricted horder hr).mpr ⟨c, a, hc, ha, hac⟩)

/-- The closure of a table of restrictions has the pairs of levels in it that a chain of restrictions forces. -/
theorem mem_closure_table_iff {n : Nat} (horder : order.Perm (List.range n))
    (hr : ∀ r ∈ restrictions, r.1 < n ∧ r.2 < n ∧ r.1 ≠ r.2) :
    i ∈ (closure (table order restrictions)).getD k .empty ↔ Forced order restrictions k i := by
  have hmem : ∀ r ∈ restrictions, r.1 ∈ order ∧ r.2 ∈ order := fun r hr' => by
    obtain ⟨h1, h2, -⟩ := hr r hr'
    exact ⟨horder.mem_iff.mpr (List.mem_range.mpr h1), horder.mem_iff.mpr (List.mem_range.mpr h2)⟩
  exact mem_closure_iff.trans (transGen_table_iff (horder.nodup_iff.mpr List.nodup_range) hmem)

end Chains

end PatternCount.Restriction
