import PatternCount.Word

/-!
# Numerals

A `Numeral` is a JSON number as it is written: sign, whole part, fraction and exponent, each as its digits.
`Numeral.scan?` takes one from the front of a text, `Numeral.chars` writes it. Two readings give it a value:
`word?` for a natural number that fits in a 64-bit word, and `double?` for a double.

The double is not the one nearest to the numeral in all cases: its leading digits, as many as fit in a word,
are made a double, which is then multiplied or divided by a power of ten. A numeral too large for a double
has no value.
-/

namespace PatternCount

inductive ExponentSign where
  | absent
  | plus
  | minus
deriving DecidableEq, Repr

structure Exponent where
  sign : ExponentSign
  digits : List Char
deriving DecidableEq, Repr

/-- A number as it is written. The fraction is the digits after the point, none if there is no point. -/
structure Numeral where
  negative : Bool
  whole : List Char
  fraction : List Char
  exponent : Option Exponent
deriving DecidableEq, Repr

namespace Numeral

/-! ## Digits -/

def isDigit (c : Char) : Bool := '0' ≤ c && c ≤ '9'

def digitValue (c : Char) : Nat := c.toNat - 48

/-- The number that the digits write, most significant first. -/
def digitsValue (digits : List Char) : Nat :=
  digits.foldl (fun n c => 10 * n + digitValue c) 0

/-- The decimal digits of `n`, most significant first. -/
def digitsOf (n : Nat) : List Char :=
  if n < 10 then [Char.ofNat (48 + n)] else digitsOf (n / 10) ++ [Char.ofNat (48 + n % 10)]
termination_by n
decreasing_by omega

def ofNat (n : Nat) : Numeral := ⟨false, digitsOf n, [], none⟩

/-! ## Reading and writing -/

/-- The whole part at the front of a text: digits, with no zero before another digit. -/
def scanWhole? (cs : List Char) : Option (List Char × List Char) :=
  match cs.takeWhile isDigit with
  | [] => none
  | '0' :: _ :: _ => none
  | digits => some (digits, cs.dropWhile isDigit)

/-- The fraction at the front of a text, if there is a point; a point needs a digit after it. -/
def scanFraction? : List Char → Option (List Char × List Char)
  | '.' :: cs =>
      match cs.takeWhile isDigit with
      | [] => none
      | digits => some (digits, cs.dropWhile isDigit)
  | cs => some ([], cs)

def scanSign : List Char → ExponentSign × List Char
  | '+' :: cs => (.plus, cs)
  | '-' :: cs => (.minus, cs)
  | cs => (.absent, cs)

/-- The exponent at the front of a text that begins after its letter; it needs a digit. -/
def scanPower? (cs : List Char) : Option (Option Exponent × List Char) :=
  let (sign, cs) := scanSign cs
  match cs.takeWhile isDigit with
  | [] => none
  | digits => some (some ⟨sign, digits⟩, cs.dropWhile isDigit)

/-- The exponent at the front of a text, if there is one. -/
def scanExponent? : List Char → Option (Option Exponent × List Char)
  | 'e' :: cs => scanPower? cs
  | 'E' :: cs => scanPower? cs
  | cs => some (none, cs)

def scanMinus : List Char → Bool × List Char
  | '-' :: cs => (true, cs)
  | cs => (false, cs)

/-- The numeral at the front of a text, and what follows it. -/
def scan? (cs : List Char) : Option (Numeral × List Char) := do
  let (negative, cs) := scanMinus cs
  let (whole, cs) ← scanWhole? cs
  let (fraction, cs) ← scanFraction? cs
  let (exponent, cs) ← scanExponent? cs
  return (⟨negative, whole, fraction, exponent⟩, cs)

def signChars : ExponentSign → List Char
  | .absent => []
  | .plus => ['+']
  | .minus => ['-']

def exponentChars : Option Exponent → List Char
  | none => []
  | some e => 'e' :: signChars e.sign ++ e.digits

def fractionChars : List Char → List Char
  | [] => []
  | digits => '.' :: digits

def chars (n : Numeral) : List Char :=
  (if n.negative then ['-'] else []) ++ n.whole ++ fractionChars n.fraction ++ exponentChars n.exponent

/-! ## What a scan leaves is shorter -/

theorem length_dropWhile_le {α : Type} (p : α → Bool) (xs : List α) :
    (xs.dropWhile p).length ≤ xs.length :=
  (List.dropWhile_sublist p).length_le

theorem scanWhole?_length {cs digits rest : List Char} (h : scanWhole? cs = some (digits, rest)) :
    rest.length < cs.length := by
  unfold scanWhole? at h
  split at h
  · simp at h
  · simp at h
  · next ds hne _ =>
      simp only [Option.some.injEq, Prod.mk.injEq] at h
      obtain ⟨-, rfl⟩ := h
      cases cs with
      | nil => simp at hne
      | cons c cs =>
          have hc : isDigit c = true := by
            cases hc : isDigit c with
            | true => rfl
            | false => exact absurd (by simp [hc]) hne
          have := length_dropWhile_le isDigit cs
          simp only [List.dropWhile_cons, hc, if_true, List.length_cons]
          omega

theorem scanFraction?_length {cs digits rest : List Char}
    (h : scanFraction? cs = some (digits, rest)) : rest.length ≤ cs.length := by
  unfold scanFraction? at h
  split at h
  · next cs =>
      split at h
      · simp at h
      · simp only [Option.some.injEq, Prod.mk.injEq] at h
        have := length_dropWhile_le isDigit cs
        rw [← h.2]
        simp only [List.length_cons]
        omega
  · simp only [Option.some.injEq, Prod.mk.injEq] at h
    simp [← h.2]

theorem scanSign_length (cs : List Char) : (scanSign cs).2.length ≤ cs.length := by
  unfold scanSign
  split <;> simp

theorem scanPower?_length {cs rest : List Char} {e : Option Exponent}
    (h : scanPower? cs = some (e, rest)) : rest.length ≤ cs.length := by
  unfold scanPower? at h
  dsimp only at h
  have hs := scanSign_length cs
  split at h
  · simp at h
  · simp only [Option.some.injEq, Prod.mk.injEq] at h
    have := length_dropWhile_le isDigit (scanSign cs).2
    rw [← h.2]
    omega

theorem scanExponent?_length {cs rest : List Char} {e : Option Exponent}
    (h : scanExponent? cs = some (e, rest)) : rest.length ≤ cs.length := by
  unfold scanExponent? at h
  split at h
  · have := scanPower?_length h
    simp only [List.length_cons]
    omega
  · have := scanPower?_length h
    simp only [List.length_cons]
    omega
  · simp only [Option.some.injEq, Prod.mk.injEq] at h
    simp [← h.2]

theorem scanMinus_length (cs : List Char) : (scanMinus cs).2.length ≤ cs.length := by
  unfold scanMinus
  split <;> simp

theorem scan?_length {cs rest : List Char} {n : Numeral} (h : scan? cs = some (n, rest)) :
    rest.length < cs.length := by
  simp only [scan?, Option.bind_eq_bind, Option.bind_eq_some_iff, Option.pure_def, Option.some.injEq,
    Prod.mk.injEq, Prod.exists] at h
  obtain ⟨whole, r₁, h₁, fraction, r₂, h₂, e, r₃, h₃, -, rfl⟩ := h
  have := scanMinus_length cs
  have := scanWhole?_length h₁
  have := scanFraction?_length h₂
  have := scanExponent?_length h₃
  omega

/-! ## Values -/

/-- The value of a numeral without sign, fraction or exponent, if it is a 64-bit word. -/
def word? (n : Numeral) : Option Nat :=
  if n.negative = false ∧ n.fraction = [] ∧ n.exponent = none ∧ digitsValue n.whole < Word.size then
    some (digitsValue n.whole)
  else
    none

/-- The leading digits as a word, going on from `significand`, and the digits that no longer fit. -/
def fill (significand : Nat) : List Char → Nat × List Char
  | [] => (significand, [])
  | c :: cs =>
      if 10 * significand + digitValue c < Word.size then fill (10 * significand + digitValue c) cs
      else (significand, c :: cs)

/-- `value * 10 ^ exponent` for a non-negative value, in steps that a table of the powers of ten up to
`10 ^ 308` allows; nothing if it is too large for a double. -/
def scale? (value : Float) (exponent : Int) : Option Float :=
  if exponent.natAbs ≤ 308 then
    let power := Float.ofScientific 1 false exponent.natAbs
    if 0 ≤ exponent then
      if (value * power).isInf then none else some (value * power)
    else
      some (value / power)
  else if value == 0.0 then some value
  else if 0 ≤ exponent then none
  else scale? (value / 1e308) (exponent + 308)
termination_by exponent.natAbs
decreasing_by omega

/-- The largest exponent that is counted exactly. -/
def maxExponent : Nat := 0x7FFFFFFF

/-- A whole number moved by an exponent, kept between the bounds of signed 32-bit numbers. -/
def shiftExponent (start : Int) (e : Exponent) : Int :=
  let n := (digitsValue e.digits : Int)
  match e.sign with
  | .minus => max (start - n) (-0x80000000)
  | _ => min (start + n) 0x7FFFFFFF

/-- A word times a power of ten, the power being moved by the exponent if there is one. -/
def scaled? (significand : Nat) (start : Int) : Option Exponent → Option Float
  | none => scale? significand.toUInt64.toFloat start
  | some e =>
      if digitsValue e.digits ≤ maxExponent then
        scale? significand.toUInt64.toFloat (shiftExponent start e)
      else if significand ≠ 0 ∧ e.sign ≠ .minus then none
      else some 0.0

def magnitude? (n : Numeral) : Option Float :=
  let (significand, rest) := fill 0 n.whole
  let (significand, unread) := fill significand n.fraction
  scaled? significand (rest.length - (n.fraction.length - unread.length : Nat)) n.exponent

def double? (n : Numeral) : Option Float :=
  (magnitude? n).map fun x => if n.negative then -x else x

end Numeral

end PatternCount
