/-!
# Hexadecimal digits

Numbers in base sixteen: `digit` and `digits` write them with small letters, `value?` reads a digit with
small or capital ones.
-/

namespace PatternCount.Hex

def digit (n : Nat) : Char := if n < 10 then Char.ofNat (48 + n) else Char.ofNat (87 + n)

def value? (c : Char) : Option Nat :=
  if '0' ≤ c ∧ c ≤ '9' then some (c.toNat - 48)
  else if 'a' ≤ c ∧ c ≤ 'f' then some (c.toNat - 87)
  else if 'A' ≤ c ∧ c ≤ 'F' then some (c.toNat - 55)
  else none

def padded : (count : Nat) → (n : Nat) → List Char
  | 0, _ => []
  | count + 1, n => padded count (n / 16) ++ [digit (n % 16)]

/-- The digits of `n`, most significant first and no leading zero. -/
def digits (n : Nat) : List Char :=
  if n < 16 then [digit n] else digits (n / 16) ++ [digit (n % 16)]
termination_by n
decreasing_by omega

end PatternCount.Hex
