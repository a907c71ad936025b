import PatternCount.Decimal.Exact
import PatternCount.Json.Numeral

/-!
# The fewest digits that read back

A decimal is read as the double that is nearest to it. `Binary64.shortest` is the decimal with the fewest
digits that is read as a given double, and of those the nearest to it.

Decimals of a given precision are the multiples of a power of ten, and if any of them reads back then one of
the two next to the double does. So it is enough to try these two, for one power after another, beginning
with one that is too coarse. The search always ends, because the double is itself a whole number of units;
`isReadFrom_shortest` says that what it finds reads back.
-/

namespace PatternCount

/-- The number `digits * 10 ^ exponent`. -/
structure Decimal where
  digits : Nat
  exponent : Int
deriving DecidableEq, Repr

namespace Binary64

variable (x : Binary64)

/-- The multiple of `g` that reads back, given by how often it holds `g`, if there is one; the nearer of two,
and the even one of two that are equally near. -/
def onGrid? (g : Nat) : Option Nat :=
  let below := x.size / g
  match x.isReadFrom (below * g), x.isReadFrom ((below + 1) * g) with
  | true, true =>
      if 2 * (x.size % g) < g then some below
      else if g < 2 * (x.size % g) then some (below + 1)
      else some (below + below % 2)
  | true, false => some below
  | false, true => some (below + 1)
  | false, false => none

/-- The coarsest grid not above `10 ^ k` with a multiple that reads back, as its power of ten, and that
multiple. -/
def coarsest : (k : Nat) → Nat × Nat
  | 0 => (0, x.size)
  | k + 1 =>
      match x.onGrid? (Nat.pow 10 (k + 1)) with
      | some n => (k + 1, n)
      | none => coarsest k

def ofUnits (found : Nat × Nat) : Decimal := ⟨found.2, (found.1 : Int) - unitPlaces⟩

/-- The decimal with the fewest digits that is read as a positive double. -/
def shortest : Decimal := ofUnits (x.coarsest (Numeral.digitsOf x.size).length)

theorem isReadFrom_onGrid {g n : Nat} (h : x.onGrid? g = some n) : x.isReadFrom (n * g) = true := by
  simp only [onGrid?] at h
  generalize x.size / g = q at h
  split at h
  · next h₀ h₁ =>
      have even : q + q % 2 = q ∨ q + q % 2 = q + 1 := by omega
      split at h
      · cases h; exact h₀
      · split at h
        · cases h; exact h₁
        · cases h
          rcases even with e | e <;> rw [e]
          · exact h₀
          · exact h₁
  · next h₀ _ => cases h; exact h₀
  · next _ h₁ => cases h; exact h₁
  · simp at h

/-- What the search finds reads back. -/
theorem isReadFrom_coarsest (k : Nat) :
    x.isReadFrom ((x.coarsest k).2 * Nat.pow 10 (x.coarsest k).1) = true := by
  fun_induction coarsest x k with
  | case1 => simpa using x.isReadFrom_size
  | case2 k n h => exact x.isReadFrom_onGrid h
  | case3 k _ ih => exact ih

/-- No grid that is coarser has a multiple next to the double that reads back. -/
theorem onGrid?_eq_none_of_coarsest_lt {k j : Nat} (hk : j ≤ k) (h : (x.coarsest k).1 < j) :
    x.onGrid? (Nat.pow 10 j) = none := by
  fun_induction coarsest x k with
  | case1 => omega
  | case2 k n hn => simp only at h; omega
  | case3 k hn ih =>
      rcases Nat.lt_or_eq_of_le hk with hk | rfl
      · exact ih (by omega) h
      · exact hn

theorem isReadFrom_ofUnits {found : Nat × Nat} (h : x.isReadFrom (found.2 * Nat.pow 10 found.1) = true) :
    ∃ k : Nat, (ofUnits found).exponent = (k : Int) - unitPlaces ∧
      x.isReadFrom ((ofUnits found).digits * Nat.pow 10 k) = true :=
  ⟨found.1, rfl, h⟩

theorem isReadFrom_shortest :
    ∃ k : Nat, x.shortest.exponent = (k : Int) - unitPlaces ∧
      x.isReadFrom (x.shortest.digits * Nat.pow 10 k) = true :=
  x.isReadFrom_ofUnits (x.isReadFrom_coarsest (Numeral.digitsOf x.size).length)

end Binary64

end PatternCount
