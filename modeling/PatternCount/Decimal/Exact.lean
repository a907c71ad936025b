import PatternCount.Binary64

/-!
# Doubles as whole numbers

Every finite double is a whole multiple of `10 ^ (-1076)`, and so is every point halfway between two of them:
the smallest distance between doubles is `2 ^ (-1074)`, a quarter of which is `5 ^ 1076` times that unit.
Counted in this unit, what is to be decided about the decimal digits of a double is decided exactly, by
arithmetic on natural numbers.
-/

namespace PatternCount.Binary64

/-- The number of decimal places of the unit in which doubles are counted. -/
def unitPlaces : Nat := 1076

variable (x : Binary64)

/-- The digits of a double without its scale: the stored bits, with the leading one that is not stored. -/
def significand : Nat :=
  if x.exponentField = 0 then x.fractionField else 0x10000000000000 + x.fractionField

/-- The distance to the next larger double is this power of two, counted in quarters of the smallest one. -/
def scale : Nat := max x.exponentField 1 + 1

/-- The size of a finite double, in units. -/
def size : Nat := (x.significand <<< x.scale) * Nat.pow 5 unitPlaces

/-- Half the distance to the next larger double. -/
def halfGapAbove : Nat := (1 <<< (x.scale - 1)) * Nat.pow 5 unitPlaces

/-- Half the distance to the next smaller double, which is closer below a power of two. -/
def halfGapBelow : Nat :=
  if x.fractionField = 0 ∧ 1 < x.exponentField then (1 <<< (x.scale - 2)) * Nat.pow 5 unitPlaces
  else x.halfGapAbove

/-- Whether a size is read as the double: it is nearer to it than to any other, or halfway to one of its
neighbours and its significand is even. -/
def isReadFrom (n : Nat) : Bool :=
  if x.significand % 2 = 0 then x.size ≤ n + x.halfGapBelow && n ≤ x.size + x.halfGapAbove
  else x.size < n + x.halfGapBelow && n < x.size + x.halfGapAbove

theorem shifted_mul_pow_pos (n k : Nat) : 0 < (1 <<< n) * Nat.pow 5 k := by
  rw [Nat.one_shiftLeft]
  exact Nat.mul_pos (Nat.two_pow_pos n) (Nat.pow_pos (by decide))

theorem halfGapAbove_pos : 0 < x.halfGapAbove := shifted_mul_pow_pos ..

theorem halfGapBelow_pos : 0 < x.halfGapBelow := by
  unfold halfGapBelow
  split
  · exact shifted_mul_pow_pos ..
  · exact x.halfGapAbove_pos

theorem isReadFrom_size : x.isReadFrom x.size = true := by
  have := x.halfGapAbove_pos
  have := x.halfGapBelow_pos
  unfold isReadFrom
  split <;> simp only [Bool.and_eq_true, decide_eq_true_eq] <;> omega

end PatternCount.Binary64
