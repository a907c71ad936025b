import PatternCount.Proofs.VertexSet.Membership
import PatternCount.VertexSet.Gallop

/-!
# What galloping finds

`gallop xs start x` is the least index from `start` on whose element is not below `x` (`gallop_spec`). Seen on
the list of elements, it drops the elements below `x` from what is left (`drop_gallop`), which is also what a
walk element by element does; the two ways to go through a set are compared by that equation.

The invariant of the doubling search is that everything from `start` up to the first component of `bracket` is
known to be below `x`, and it stops at a probe that is not below `x` or lies past the end (`bracket_spec`).
-/

namespace PatternCount.VertexSet

variable {xs : Array Nat} {x : Nat}

theorem bracket_spec (hasc : Ascending xs.toList) {start doublings lo hi : Nat} (hstart : start ≤ lo)
    (hlo : lo ≤ hi) (hsize : lo ≤ xs.size)
    (hbelow : ∀ i (hs : i < xs.size), start ≤ i → i < lo → xs[i] < x) {lo' hi' : Nat}
    (h : bracket xs x doublings lo hi = (lo', hi')) :
    start ≤ lo' ∧ lo' ≤ min hi' xs.size
      ∧ (∀ i (hs : i < xs.size), start ≤ i → i < lo' → xs[i] < x)
      ∧ (∀ i (hs : i < xs.size), hi' ≤ i → x ≤ xs[i]) := by
  fun_induction bracket xs x doublings lo hi with
  | case1 doublings lo hi hhi hx ih =>
      have := lt_nextProbe doublings hhi
      refine ih (by omega) (by omega) (by omega) ?_ h
      intro i hs _ hi'
      exact Nat.lt_of_le_of_lt (hasc.getElem_le (Nat.le_of_lt_succ hi') hhi) hx
  | case2 doublings lo hi hhi hx =>
      obtain ⟨rfl, rfl⟩ := Prod.mk.inj h
      exact ⟨hstart, by omega, hbelow, fun i hs hi =>
        Nat.le_trans (Nat.le_of_not_lt hx) (hasc.getElem_le hi hs)⟩
  | case3 doublings lo hi hhi =>
      obtain ⟨rfl, rfl⟩ := Prod.mk.inj h
      exact ⟨hstart, by omega, hbelow, fun i hs hi => by omega⟩

/-- Galloping finds the least index from `start` on whose element is not below `x`, or the end. -/
theorem gallop_spec (hasc : Ascending xs.toList) {start : Nat} (hstart : start ≤ xs.size) :
    start ≤ gallop xs start x ∧ gallop xs start x ≤ xs.size
      ∧ (∀ i (hs : i < xs.size), start ≤ i → i < gallop xs start x → xs[i] < x)
      ∧ (∀ i (hs : i < xs.size), gallop xs start x ≤ i → x ≤ xs[i]) := by
  rcases hb : bracket xs x 0 start start with ⟨lo, hi⟩
  obtain ⟨h1, h2, h3, h4⟩ := bracket_spec hasc (Nat.le_refl start) (Nat.le_refl start) hstart
    (fun i _ h1 h2 => by omega) hb
  obtain ⟨g1, g2, g3, g4⟩ := lowerBound_spec (x := x) hasc h2 (Nat.min_le_right hi xs.size)
  have hg : gallop xs start x = lowerBound xs x lo (min hi xs.size) (Nat.min_le_right ..) := by
    rw [gallop, hb]
  rw [hg]
  refine ⟨by omega, by omega, ?_, ?_⟩
  · intro i hs hi hr
    rcases Nat.lt_or_ge i lo with hlt | hge
    · exact h3 i hs hi hlt
    · exact g3 i hs hge hr
  · intro i hs hr
    rcases Nat.lt_or_ge i (min hi xs.size) with hlt | hge
    · exact g4 i hs hr hlt
    · exact h4 i hs (by omega)

theorem dropWhile_drop : ∀ {n start : Nat}, start + n ≤ xs.size →
    (∀ i (hs : i < xs.size), start ≤ i → i < start + n → xs[i] < x) →
    (∀ hs : start + n < xs.size, x ≤ xs[start + n]) →
    (xs.toList.drop start).dropWhile (· < x) = xs.toList.drop (start + n)
  | 0, start, _, _, habove => by
      rcases Nat.lt_or_ge start xs.size with hlt | hge
      · have := habove hlt
        rw [Nat.add_zero, List.drop_eq_getElem_cons (by simpa using hlt), List.dropWhile_cons_of_neg]
        simpa using this
      · rw [Nat.add_zero, List.drop_eq_nil_of_le (by simpa using hge), List.dropWhile_nil]
  | n + 1, start, hsize, hbelow, habove => by
      have hlt : start < xs.size := by omega
      have hx := hbelow start hlt (Nat.le_refl _) (by omega)
      have heq : start + (n + 1) = (start + 1) + n := by omega
      simp only [heq] at hsize hbelow habove ⊢
      rw [List.drop_eq_getElem_cons (i := start) (by simpa using hlt),
        List.dropWhile_cons_of_pos (by simpa using hx)]
      exact dropWhile_drop hsize (fun i hs hi hr => hbelow i hs (by omega) hr) habove

/-- Dropping the elements below `x` one after another ends where galloping does. -/
theorem drop_gallop (hasc : Ascending xs.toList) {start : Nat} (hstart : start ≤ xs.size) :
    xs.toList.drop (gallop xs start x) = (xs.toList.drop start).dropWhile (· < x) := by
  obtain ⟨h1, h2, h3, h4⟩ := gallop_spec (x := x) hasc hstart
  obtain ⟨n, hn⟩ := Nat.exists_eq_add_of_le h1
  simp only [hn] at h2 h3 h4 ⊢
  exact (dropWhile_drop h2 h3 fun hs => h4 _ hs (Nat.le_refl _)).symm

theorem getElem?_gallop (hasc : Ascending xs.toList) {start : Nat} (hstart : start ≤ xs.size) :
    xs[gallop xs start x]? = ((xs.toList.drop start).dropWhile (· < x)).head? := by
  rw [← drop_gallop hasc hstart, List.head?_drop, Array.getElem?_toList]

end PatternCount.VertexSet
