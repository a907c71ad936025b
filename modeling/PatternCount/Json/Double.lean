import PatternCount.Decimal.Shortest
import PatternCount.Json.Basic

/-!
# Doubles in JSON

A double is written with the fewest digits that read back: with a point if it is at least `10 ^ (-5)` and less
than `10 ^ 16`, and otherwise with an exponent, whose sign is always written. With a point there is always a
digit on either side of it. An infinity and what is no number have no numeral and are written `null`.
-/

namespace PatternCount

namespace Decimal

/-- A decimal as a numeral, with the given sign. -/
def numeral (negative : Bool) (d : Decimal) : Numeral :=
  let digits := Numeral.digitsOf d.digits
  -- The place of the leading digit: zero for the units.
  let place := d.exponent + digits.length - 1
  if d.digits = 0 then ⟨negative, ['0'], ['0'], none⟩
  else if place < -5 ∨ 16 ≤ place then
    ⟨negative, digits.take 1, digits.drop 1,
      some ⟨if place < 0 then .minus else .plus, Numeral.digitsOf place.natAbs⟩⟩
  else if place < 0 then
    ⟨negative, ['0'], List.replicate (place.natAbs - 1) '0' ++ digits, none⟩
  else
    let whole := digits ++ List.replicate d.exponent.toNat '0'
    match whole.drop (place.toNat + 1) with
    | [] => ⟨negative, whole, ['0'], none⟩
    | fraction => ⟨negative, whole.take (place.toNat + 1), fraction, none⟩

end Decimal

/-- A double as a JSON value. -/
def Json.ofDouble (x : Binary64) : Json :=
  if x.isFinite then .num (x.shortest.numeral x.isNegative) else .null

end PatternCount
