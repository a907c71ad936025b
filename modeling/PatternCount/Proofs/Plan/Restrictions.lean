import Mathlib.Logic.Relation
import PatternCount.Plan.OfPattern
import PatternCount.Proofs.Pattern.Positions

/-!
# Bounds that follow from restrictions

`Restriction.table` notes for each level the levels whose vertices are asked to be above its own, and
`Restriction.closure` adds what follows. The closure is the transitive closure of the table, no more and no less
(`mem_closure_iff`), also where restrictions contradict each other and a level is asked to be above itself.

The levels in between are gone through once. After a level has been gone through, it can be left out of any two
steps that meet in it (`Closed`), and going through further levels does not undo this (`closed_closeOver`).
-/

namespace PatternCount.Restriction

def Above (above : Array PositionSet) (k i : Nat) : Prop := i ∈ above.getD k .empty

theorem Above.lt_size {above : Array PositionSet} {k i : Nat} (h : Above above k i) : k < above.size := by
  rcases Nat.lt_or_ge k above.size with hk | hk
  · exact hk
  · rw [Above, Array.getD_eq_getD_getElem?, Array.getElem?_eq_none hk] at h
    exact (PositionSet.not_mem_empty i h).elim

/-! ## The table -/

theorem above_modify {above : Array PositionSet} {q j k i : Nat} :
    Above (above.modify q (·.insert j)) k i ↔ Above above k i ∨ (k < above.size ∧ k = q ∧ i = j) := by
  simp only [Above, Array.getD_eq_getD_getElem?, Array.getElem?_modify]
  rcases Nat.lt_or_ge k above.size with hk | hk
  · rw [Array.getElem?_eq_getElem hk]
    by_cases hq : q = k
    · simp [hq, hk]
    · simp [hq, Ne.symm hq]
  · rw [Array.getElem?_eq_none hk]
    simp [Nat.not_lt_of_le hk]

theorem above_foldl {order : List Nat} {k i : Nat} : ∀ {restrictions : List (Nat × Nat)}
    {above : Array PositionSet},
    Above (restrictions.foldl (fun above (a, b) => above.modify (order.idxOf b) (·.insert (order.idxOf a)))
        above) k i
      ↔ Above above k i ∨ (k < above.size ∧ ∃ r ∈ restrictions, k = order.idxOf r.2 ∧ i = order.idxOf r.1)
  | [], above => by simp
  | r :: rest, above => by
      rw [List.foldl_cons, above_foldl, above_modify, Array.size_modify, or_assoc, ← and_or_left]
      refine or_congr_right (and_congr_right ?_)
      intro _
      constructor
      · rintro (h | ⟨r', hr', h⟩)
        · exact ⟨r, List.mem_cons_self, h⟩
        · exact ⟨r', List.mem_cons_of_mem _ hr', h⟩
      · rintro ⟨r', hr', h⟩
        rcases List.mem_cons.mp hr' with rfl | hr'
        · exact Or.inl h
        · exact Or.inr ⟨r', hr', h⟩

theorem above_table_iff {order : List Nat} {restrictions : List (Nat × Nat)} {k i : Nat} :
    Above (table order restrictions) k i ↔
      k < order.length ∧ ∃ r ∈ restrictions, k = order.idxOf r.2 ∧ i = order.idxOf r.1 := by
  have hnone : ¬Above (Array.replicate order.length .empty) k i := by
    rw [Above, Array.getD_eq_getD_getElem?, Array.getElem?_replicate]
    split
    · exact PositionSet.not_mem_empty i
    · exact PositionSet.not_mem_empty i
  rw [table, above_foldl, Array.size_replicate, or_iff_right hnone]

/-! ## The closure -/

theorem above_closeOver {above : Array PositionSet} {mid k i : Nat} :
    Above (closeOver above mid) k i ↔ Above above k i ∨ (Above above k mid ∧ Above above mid i) := by
  simp only [Above, closeOver, Array.getD_eq_getD_getElem?, Array.getElem?_map]
  cases above[k]? with
  | none => simp
  | some row =>
      by_cases hmid : mid ∈ row
      · simp [hmid]
      · simp [hmid]

/-- Two steps that meet in level `j` can be taken at once. -/
def Closed (above : Array PositionSet) (j : Nat) : Prop :=
  ∀ k i, Above above k j → Above above j i → Above above k i

/-- Going through a level closes the table over it, and leaves it closed over those gone through before. -/
theorem closed_closeOver {above : Array PositionSet} {mid j : Nat} (h : j = mid ∨ Closed above j) :
    Closed (closeOver above mid) j := by
  intro k i hkj hji
  rw [above_closeOver] at hkj hji ⊢
  rcases h with rfl | hclosed
  · -- A step to the level itself was there before.
    exact Or.inr ⟨hkj.elim id And.left, hji.elim id And.right⟩
  · rcases hkj with hkj | ⟨hkm, hmj⟩
    · rcases hji with hji | ⟨hjm, hmi⟩
      · exact Or.inl (hclosed k i hkj hji)
      · exact Or.inr ⟨hclosed k mid hkj hjm, hmi⟩
    · rcases hji with hji | ⟨-, hmi⟩
      · exact Or.inr ⟨hkm, hclosed mid i hmj hji⟩
      · exact Or.inr ⟨hkm, hmi⟩

theorem above_foldl_closeOver (mids : List Nat) (above : Array PositionSet) {k i : Nat} :
    (Above above k i → Above (mids.foldl closeOver above) k i) ∧
      (Above (mids.foldl closeOver above) k i → Relation.TransGen (Above above) k i) := by
  induction mids generalizing above with
  | nil => exact ⟨id, .single⟩
  | cons mid rest ih =>
      obtain ⟨hkeep, hsound⟩ := ih (closeOver above mid)
      refine ⟨fun h => hkeep (above_closeOver.mpr (Or.inl h)), ?_⟩
      intro h
      refine (hsound h).lift' id ?_
      intro a b hab
      rcases above_closeOver.mp hab with hab | ⟨ham, hmb⟩
      · exact .single hab
      · exact .tail (.single ham) hmb

theorem closed_foldl_closeOver (mids : List Nat) (above : Array PositionSet) {j : Nat}
    (h : j ∈ mids ∨ Closed above j) : Closed (mids.foldl closeOver above) j := by
  induction mids generalizing above with
  | nil => exact h.resolve_left List.not_mem_nil
  | cons mid rest ih =>
      refine ih (closeOver above mid) ?_
      rcases h with h | h
      · rcases List.mem_cons.mp h with h | h
        · exact Or.inr (closed_closeOver (Or.inl h))
        · exact Or.inl h
      · exact Or.inr (closed_closeOver (Or.inr h))

/-- A level has to be above another exactly if a chain of steps in the table leads from the one to the other. -/
theorem mem_closure_iff {above : Array PositionSet} {k i : Nat} :
    Above (closure above) k i ↔ Relation.TransGen (Above above) k i := by
  refine ⟨(above_foldl_closeOver _ _).2, ?_⟩
  intro h
  induction h with
  | single h => exact (above_foldl_closeOver _ _).1 h
  | tail _ hji ih =>
      have hclosed := closed_foldl_closeOver _ above (Or.inl (List.mem_range.mpr hji.lt_size))
      exact hclosed _ _ ih ((above_foldl_closeOver _ _).1 hji)

/-- Vertices obey the closure if they obey the table. -/
theorem forall_closure_iff {above : Array PositionSet} {v : Nat → Nat} :
    (∀ k i, Above (closure above) k i → v k < v i) ↔ ∀ k i, Above above k i → v k < v i := by
  constructor
  · exact fun h k i hki => h k i (mem_closure_iff.mpr (.single hki))
  · intro h k i hki
    have hchain := mem_closure_iff.mp hki
    clear hki
    induction hchain with
    | single hstep => exact h _ _ hstep
    | tail _ hstep ih => exact Nat.lt_trans ih (h _ _ hstep)

end PatternCount.Restriction
