import PatternCount.Text.Hex

/-!
# Doubles held by their bits

A `Binary64` is a double together with nothing but its 64 bits, so that two of them are equal exactly when
their bits are. Arithmetic goes through `toFloat`; `hex` writes the bits, and writes both zeros as zero.
-/

namespace PatternCount

/-- A double, as its 64 bits. -/
structure Binary64 where
  bits : UInt64
deriving DecidableEq, Repr

namespace Binary64

def toFloat (x : Binary64) : Float := Float.ofBits x.bits

def ofFloat (x : Float) : Binary64 := ⟨x.toBits⟩

def zero : Binary64 := ⟨0⟩

def one : Binary64 := ⟨0x3FF0000000000000⟩

def add (x y : Binary64) : Binary64 := ofFloat (x.toFloat + y.toFloat)

def signBit : UInt64 := 0x8000000000000000

/-! ## Fields -/

def isNegative (x : Binary64) : Bool := 0x8000000000000000 ≤ x.bits.toNat

def exponentField (x : Binary64) : Nat := x.bits.toNat / 0x10000000000000 % 0x800

/-- The 52 bits of the significand that are stored. -/
def fractionField (x : Binary64) : Nat := x.bits.toNat % 0x10000000000000

def isFinite (x : Binary64) : Bool := x.exponentField < 2047

def isNaN (x : Binary64) : Bool := !x.isFinite && x.fractionField ≠ 0

/-! ## Comparison and text -/

/-- Equality of the numbers: the zeros are equal, and a NaN differs from itself. -/
def sameNumber (x y : Binary64) : Bool := x.toFloat == y.toFloat

/-- The sixteen hexadecimal digits of the bits; negative zero is written as zero. -/
def hex (x : Binary64) : String :=
  String.ofList (Hex.padded 16 (if x.bits = signBit then 0 else x.bits.toNat))

/-- The double whose bits are written as sixteen hexadecimal digits. -/
def ofHex? (s : String) : Option Binary64 := do
  let digits ← s.toList.mapM Hex.value?
  if digits.length = 16 then
    some ⟨(digits.foldl (fun n d => 16 * n + d) 0).toUInt64⟩
  else
    none

end Binary64

end PatternCount
