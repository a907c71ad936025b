import PatternCount.Decimal.Exact
import PatternCount.Json.Numeral

/-!
# A fixed number of decimal places

`Binary64.fixed` writes the exact value of a double with a given number of decimal places. What lies halfway
between two such decimals goes to the even one.
-/

namespace PatternCount

/-- The whole number nearest to a quotient; the even one if two are equally near. -/
def roundedQuotient (n d : Nat) : Nat :=
  let q := n / d
  if 2 * (n % d) < d then q
  else if d < 2 * (n % d) then q + 1
  else q + q % 2

/-- A rounded quotient is within half a unit of the exact one. -/
theorem roundedQuotient_near (n d : Nat) (h : 0 < d) :
    2 * n ≤ 2 * (roundedQuotient n d * d) + d ∧ 2 * (roundedQuotient n d * d) ≤ 2 * n + d := by
  have hn : d * (n / d) + n % d = n := Nat.div_add_mod n d
  have hr : n % d < d := Nat.mod_lt _ h
  simp only [roundedQuotient]
  generalize n / d = q at *
  generalize n % d = r at *
  subst hn
  have hs : (q + 1) * d = d * q + d := by rw [Nat.add_mul, Nat.one_mul, Nat.mul_comm]
  have hq : q * d = d * q := Nat.mul_comm ..
  split
  · omega
  · split
    · omega
    · rcases Nat.mod_two_eq_zero_or_one q with hm | hm <;> rw [hm]
      · simp only [Nat.add_zero]
        omega
      · omega

theorem roundedQuotient_even_of_tie (n d : Nat) (h : 2 * (n % d) = d) : roundedQuotient n d % 2 = 0 := by
  simp only [roundedQuotient]
  rw [if_neg (by omega), if_neg (by omega)]
  omega

namespace Decimal

/-- The decimal digits of a number with a point before the last `places` of them. -/
def withPoint (places n : Nat) : List Char :=
  let digits := Numeral.digitsOf n
  let digits := List.replicate (places + 1 - digits.length) '0' ++ digits
  digits.take (digits.length - places) ++ Numeral.fractionChars (digits.drop (digits.length - places))

end Decimal

/-- A double with that many decimal places. A negative one keeps its sign even if it is rounded to zero. -/
def Binary64.fixed (places : Nat) (x : Binary64) : String :=
  if x.isNaN then "NaN"
  else
    let sign := if x.isNegative then "-" else ""
    if x.isFinite then
      sign ++ String.ofList (Decimal.withPoint places (roundedQuotient x.size (Nat.pow 10 (unitPlaces - places))))
    else
      sign ++ "inf"

end PatternCount
