import Mathlib.Order.Bounds.Basic
import PatternCount.Proofs.VertexSet.Galloping

/-!
# Galloping in machine words

The strides of a galloping search are words, and so are its probes: doubling the largest power of two in a word gives
zero, and no probe goes past the largest word. `Probes` is the search as words carry it out. A stride of zero would
make no progress, but the search never comes to that point (`probes_bracket`). The strides before the next one add up
to one less than it is, so while the probe is still in the array, whose size is a word, the next stride is a word as
well; the bit can only be lost by a stride that comes after a probe past the end.

So the search comes to its end, with a slice of the array left to bisect, and what is found there is the least index
from the start on whose element is not below `x`, or the size of the array (`gallop_isLeast`).
-/

namespace PatternCount.VertexSet

/-- The doubling search in words that has come to the probe `hi`, with all elements from the start up to `lo` passed,
goes on at this stride and stops at the probe `hi'`, with those up to `lo'` passed. -/
inductive Probes (xs : Array Nat) (x : Nat) : (stride lo hi lo' hi' : Nat) → Prop where
  | stop {stride lo hi : Nat} (h : ∀ v, xs[hi]? = some v → x ≤ v) : Probes xs x stride lo hi lo hi
  | next {stride lo hi lo' hi' v : Nat} (hv : xs[hi]? = some v) (hx : v < x)
      (h : Probes xs x (2 * stride % Word.size) (hi + 1) (Word.saturatingAdd hi stride) lo' hi') :
      Probes xs x stride lo hi lo' hi'

variable {xs : Array Nat} {x : Nat}

/-- In an array whose size is a word, no stride that is still to be added has lost a bit. -/
theorem probes_bracket (hsize : xs.size ≤ Word.max) {doublings lo hi : Nat}
    (hhi : hi < xs.size → 1 <<< doublings ≤ hi + 1) :
    Probes xs x (1 <<< doublings % Word.size) lo hi (bracket xs x doublings lo hi).1
      (bracket xs x doublings lo hi).2 := by
  fun_induction bracket xs x doublings lo hi with
  | case1 doublings lo hi hlt hx ih =>
      have hmax : Word.max < Word.size := by decide
      have hstride := hhi hlt
      have hfits : 1 <<< doublings % Word.size = 1 <<< doublings := Nat.mod_eq_of_lt (by omega)
      have hprobe : nextProbe xs doublings hi = Word.saturatingAdd hi (1 <<< doublings) := by
        rw [nextProbe, Nat.max_eq_right hsize, Word.saturatingAdd]
      refine .next (Array.getElem?_eq_getElem hlt) hx ?_
      rw [hfits, ← Nat.shiftLeft_succ, ← hprobe]
      refine ih fun hnext => ?_
      -- A probe in the array has not been held back at the end of the word.
      rw [hprobe, Word.saturatingAdd] at hnext ⊢
      rw [Nat.shiftLeft_succ]
      omega
  | case2 doublings lo hi hlt hx =>
      refine .stop fun v hv => ?_
      rw [Array.getElem?_eq_getElem hlt, Option.some.injEq] at hv
      exact hv ▸ Nat.le_of_not_lt hx
  | case3 doublings lo hi hend =>
      refine .stop fun v hv => ?_
      rw [Array.getElem?_eq_none (Nat.le_of_not_lt hend)] at hv
      cases hv

/-- In an ascending array whose size is a word, galloping in words comes to an end, the slice that it leaves to bisect
lies in the array, and what it finds is the least index from the start on that is the size of the array or that of an
element not below `x`. -/
theorem gallop_isLeast (hasc : Ascending xs.toList) (hsize : xs.size ≤ Word.max) {start : Nat}
    (hstart : start ≤ xs.size) (x : Nat) :
    (∃ lo hi, Probes xs x 1 start start lo hi ∧ lo ≤ min hi xs.size ∧
      gallop xs start x = lowerBound xs x lo (min hi xs.size) (Nat.min_le_right ..)) ∧
    IsLeast {i | start ≤ i ∧ (i = xs.size ∨ ∃ v, xs[i]? = some v ∧ x ≤ v)} (gallop xs start x) := by
  have hprobes : Probes xs x 1 start start (bracket xs x 0 start start).1 (bracket xs x 0 start start).2 :=
    @probes_bracket xs x hsize 0 start start fun _ => Nat.le_add_left 1 start
  obtain ⟨-, hslice, -⟩ := @bracket_spec xs x hasc start 0 start start (Nat.le_refl start) (Nat.le_refl start) hstart
    (fun i _ hi hi' => absurd hi' (Nat.not_lt_of_le hi)) _ _ rfl
  obtain ⟨hle, hend, hbelow, habove⟩ := gallop_spec (x := x) hasc hstart
  refine ⟨⟨_, _, hprobes, hslice, rfl⟩, ⟨hle, ?_⟩, ?_⟩
  · rcases Nat.eq_or_lt_of_le hend with heq | hlt
    · exact Or.inl heq
    · exact Or.inr ⟨_, Array.getElem?_eq_getElem hlt, habove _ hlt (Nat.le_refl _)⟩
  · rintro i ⟨hi, hfound⟩
    refine Nat.le_of_not_lt fun hlt => ?_
    rcases hfound with rfl | ⟨v, hv, hx⟩
    · exact Nat.not_le_of_lt hlt hend
    · obtain ⟨his, rfl⟩ := Array.getElem?_eq_some_iff.mp hv
      exact Nat.not_le_of_lt (hbelow i his hi hlt) hx

/-- The second stride from index 3 on goes past the end, and the search has one element left to look at. -/
theorem gallop_isLeast_overshot :
    Ascending #[1, 3, 5, 7, 9, 11, 13].toList ∧ #[1, 3, 5, 7, 9, 11, 13].size ≤ Word.max ∧
      3 ≤ #[1, 3, 5, 7, 9, 11, 13].size ∧
      (∃ lo hi, Probes #[1, 3, 5, 7, 9, 11, 13] 12 1 3 3 lo hi ∧ lo ≤ min hi 7) ∧
      gallop #[1, 3, 5, 7, 9, 11, 13] 3 12 = 6 ∧
      IsLeast {i | 3 ≤ i ∧ (i = 7 ∨ ∃ v, #[1, 3, 5, 7, 9, 11, 13][i]? = some v ∧ 12 ≤ v)} 6 := by
  have hasc : Ascending #[1, 3, 5, 7, 9, 11, 13].toList := by
    unfold Ascending
    decide
  have hgallop : gallop #[1, 3, 5, 7, 9, 11, 13] 3 12 = 6 := by simp [gallop, bracket, nextProbe, lowerBound]
  have hstart : 3 ≤ #[1, 3, 5, 7, 9, 11, 13].size := by decide
  obtain ⟨⟨lo, hi, hprobes, hslice, -⟩, hleast⟩ := gallop_isLeast hasc (by decide) hstart 12
  rw [hgallop] at hleast
  exact ⟨hasc, by decide, hstart, ⟨lo, hi, hprobes, hslice⟩, hgallop, hleast⟩

end PatternCount.VertexSet
