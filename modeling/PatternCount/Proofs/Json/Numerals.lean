import PatternCount.Json.Numeral

/-!
# How a numeral is spelled

`Numeral.Spells` is the grammar of JSON numbers: a sign, a whole part without leading zeros, perhaps a point
and digits, perhaps an exponent. Nothing in a numeral says where it ends, so what `Numeral.scan?` takes from
the front of a text also depends on what follows: `scan?_eq` finds the numeral that is spelled there if the
text goes on with something that could not be part of it (`Ends`).

The numerals that are written for natural numbers are those of the grammar, and have the number as their
value (`ofNat_wellFormed`, `word?_ofNat`).
-/

namespace PatternCount.Numeral

/-! ## The grammar -/

/-- One digit or more. -/
def IsDigits (cs : List Char) : Prop := cs ≠ [] ∧ ∀ c ∈ cs, isDigit c = true

structure WellFormed (n : Numeral) : Prop where
  whole : IsDigits n.whole
  leading : n.whole.head? = some '0' → n.whole = ['0']
  fraction : ∀ c ∈ n.fraction, isDigit c = true
  exponent : ∀ e, n.exponent = some e → IsDigits e.digits

/-- The letter of an exponent may be small or capital. -/
inductive SpellsExponent : Option Exponent → List Char → Prop
  | absent : SpellsExponent none []
  | small (e : Exponent) : SpellsExponent (some e) ('e' :: (signChars e.sign ++ e.digits))
  | capital (e : Exponent) : SpellsExponent (some e) ('E' :: (signChars e.sign ++ e.digits))

def minusChars (negative : Bool) : List Char := if negative then ['-'] else []

def Spells (n : Numeral) (cs : List Char) : Prop :=
  n.WellFormed ∧ ∃ exponent, SpellsExponent n.exponent exponent
    ∧ cs = minusChars n.negative ++ (n.whole ++ (fractionChars n.fraction ++ exponent))

/-- A text that does not begin with a digit. -/
def NoDigit (rest : List Char) : Prop := ∀ c ∈ rest.head?, isDigit c = false

/-- A text with which no numeral goes on. -/
def Ends (rest : List Char) : Prop := ∀ c ∈ rest.head?, isDigit c = false ∧ c ≠ '.' ∧ c ≠ 'e' ∧ c ≠ 'E'

/-! ## Scanning -/

section Digits

variable {digits rest : List Char}

theorem takeWhile_digits (h : ∀ c ∈ digits, isDigit c = true) (hrest : NoDigit rest) :
    (digits ++ rest).takeWhile isDigit = digits := by
  rw [List.takeWhile_append_of_pos h]
  cases rest with
  | nil => simp
  | cons c cs => simp [hrest c rfl]

theorem dropWhile_digits (h : ∀ c ∈ digits, isDigit c = true) (hrest : NoDigit rest) :
    (digits ++ rest).dropWhile isDigit = rest := by
  rw [List.dropWhile_append_of_pos h]
  cases rest with
  | nil => rfl
  | cons c cs => simp [hrest c rfl]

theorem IsDigits.exists_cons (h : IsDigits digits) : ∃ d ds, digits = d :: ds ∧ isDigit d = true := by
  obtain ⟨hne, hall⟩ := h
  obtain ⟨d, ds, rfl⟩ := List.exists_cons_of_ne_nil hne
  exact ⟨d, ds, rfl, hall d List.mem_cons_self⟩

end Digits

/-- A character that is no digit differs from every digit. -/
theorem ne_of_isDigit {c d : Char} (hc : isDigit c = true) (hd : isDigit d = false) : c ≠ d := by
  rintro rfl
  rw [hc] at hd
  cases hd

variable {rest cs : List Char}

theorem scanWhole?_eq {whole : List Char} (h : IsDigits whole) (hlead : whole.head? = some '0' → whole = ['0'])
    (hrest : NoDigit rest) : scanWhole? (whole ++ rest) = some (whole, rest) := by
  rw [scanWhole?, takeWhile_digits h.2 hrest, dropWhile_digits h.2 hrest]
  split
  · exact absurd rfl h.1
  · cases hlead rfl
  · rfl

theorem scanFraction?_eq {fraction : List Char} (h : ∀ c ∈ fraction, isDigit c = true) (hrest : NoDigit rest)
    (hpoint : rest.head? ≠ some '.') :
    scanFraction? (fractionChars fraction ++ rest) = some (fraction, rest) := by
  cases fraction with
  | nil =>
      rw [fractionChars, List.nil_append, scanFraction?]
      rintro cs rfl
      exact hpoint rfl
  | cons d ds =>
      rw [fractionChars, List.cons_append, scanFraction?, takeWhile_digits h hrest, dropWhile_digits h hrest]
      nofun

theorem scanSign_eq (sign : ExponentSign) {digits : List Char} (h : IsDigits digits) :
    scanSign (signChars sign ++ (digits ++ rest)) = (sign, digits ++ rest) := by
  cases sign with
  | absent =>
      obtain ⟨d, ds, rfl, hd⟩ := h.exists_cons
      have hplus : d ≠ '+' := ne_of_isDigit hd rfl
      have hminus : d ≠ '-' := ne_of_isDigit hd rfl
      rw [signChars, List.nil_append, List.cons_append, scanSign]
      · rintro cs ⟨⟩
        exact hplus rfl
      · rintro cs ⟨⟩
        exact hminus rfl
  | plus => rfl
  | minus => rfl

theorem scanPower?_eq (e : Exponent) (h : IsDigits e.digits) (hrest : NoDigit rest) :
    scanPower? (signChars e.sign ++ (e.digits ++ rest)) = some (some e, rest) := by
  rw [scanPower?, scanSign_eq e.sign h]
  simp only
  rw [takeWhile_digits h.2 hrest, dropWhile_digits h.2 hrest]
  split
  · next hnil => exact absurd hnil h.1
  · rfl

theorem scanExponent?_eq {e : Option Exponent} (h : ∀ e', e = some e' → IsDigits e'.digits)
    (hcs : SpellsExponent e cs) (hrest : Ends rest) : scanExponent? (cs ++ rest) = some (e, rest) := by
  have hdigit : NoDigit rest := fun c hc => (hrest c hc).1
  cases hcs with
  | absent =>
      rw [List.nil_append, scanExponent?]
      · rintro cs rfl
        exact (hrest 'e' rfl).2.2.1 rfl
      · rintro cs rfl
        exact (hrest 'E' rfl).2.2.2 rfl
  | small e => rw [List.cons_append, List.append_assoc, scanExponent?, scanPower?_eq e (h e rfl) hdigit]
  | capital e => rw [List.cons_append, List.append_assoc, scanExponent?, scanPower?_eq e (h e rfl) hdigit]

theorem scanMinus_eq (negative : Bool) {digits : List Char} (h : IsDigits digits) :
    scanMinus (minusChars negative ++ (digits ++ rest)) = (negative, digits ++ rest) := by
  cases negative with
  | false =>
      obtain ⟨d, ds, rfl, hd⟩ := h.exists_cons
      have hminus : d ≠ '-' := ne_of_isDigit hd rfl
      show scanMinus (d :: (ds ++ rest)) = _
      rw [scanMinus]
      · rfl
      · rintro cs ⟨⟩
        exact hminus rfl
  | true => rfl

theorem Ends.noDigit_exponent {e : Option Exponent} (hcs : SpellsExponent e cs) (hrest : Ends rest) :
    NoDigit (cs ++ rest) := by
  cases hcs with
  | absent => exact fun c hc => (hrest c hc).1
  | small e =>
      rintro c ⟨⟩
      rfl
  | capital e =>
      rintro c ⟨⟩
      rfl

theorem Ends.noPoint_exponent {e : Option Exponent} (hcs : SpellsExponent e cs) (hrest : Ends rest) :
    (cs ++ rest).head? ≠ some '.' := by
  cases hcs with
  | absent => exact fun hc => (hrest '.' hc).2.1 rfl
  | small e => nofun
  | capital e => nofun

theorem noDigit_fraction (fraction : List Char) (hrest : NoDigit rest) :
    NoDigit (fractionChars fraction ++ rest) := by
  cases fraction with
  | nil => exact hrest
  | cons d ds =>
      rintro c ⟨⟩
      rfl

/-- A numeral is taken whole, and nothing with it, where the text after it cannot prolong it. -/
theorem scan?_eq {n : Numeral} (h : n.Spells cs) (hrest : Ends rest) : scan? (cs ++ rest) = some (n, rest) := by
  obtain ⟨hn, exponent, he, rfl⟩ := h
  have hexp := hrest.noDigit_exponent he
  have hminus := @scanMinus_eq (fractionChars n.fraction ++ (exponent ++ rest)) n.negative n.whole hn.whole
  have hwhole := scanWhole?_eq hn.whole hn.leading (noDigit_fraction n.fraction hexp)
  have hfraction := scanFraction?_eq hn.fraction hexp (hrest.noPoint_exponent he)
  have hexponent := scanExponent?_eq hn.exponent he hrest
  simp only [List.append_assoc]
  simp only [scan?, hminus, hwhole, hfraction, hexponent, Option.bind_eq_bind, Option.bind_some, Option.pure_def]

/-- A numeral begins with a digit or a minus. -/
theorem Spells.exists_cons {n : Numeral} (h : n.Spells cs) :
    ∃ c tail, cs = c :: tail ∧ (isDigit c = true ∨ c = '-') := by
  obtain ⟨hn, exponent, -, rfl⟩ := h
  obtain ⟨d, ds, hwhole, hd⟩ := hn.whole.exists_cons
  cases n.negative with
  | true => exact ⟨'-', _, rfl, .inr rfl⟩
  | false =>
      rw [hwhole]
      exact ⟨d, _, rfl, .inl hd⟩

/-- Numerals are written as the grammar has them. -/
theorem WellFormed.spells_chars {n : Numeral} (h : n.WellFormed) : n.Spells n.chars := by
  refine ⟨h, exponentChars n.exponent, ?_, ?_⟩
  · cases n.exponent with
    | none => exact .absent
    | some e => exact .small e
  · simp only [chars, minusChars, List.append_assoc]

/-! ## Numerals of natural numbers -/

theorem digitValue_ofNat : ∀ {d : Nat}, d < 10 → digitValue (Char.ofNat (48 + d)) = d := by decide

theorem isDigit_ofNat : ∀ {d : Nat}, d < 10 → isDigit (Char.ofNat (48 + d)) = true := by decide

theorem ofNat_eq_zero : ∀ {d : Nat}, d < 10 → Char.ofNat (48 + d) = '0' → d = 0 := by decide

theorem digitsValue_concat (digits : List Char) (c : Char) :
    digitsValue (digits ++ [c]) = 10 * digitsValue digits + digitValue c := by
  rw [digitsValue, List.foldl_append]
  rfl

theorem digitsValue_digitsOf (n : Nat) : digitsValue (digitsOf n) = n := by
  induction n using digitsOf.induct with
  | case1 n h =>
      rw [digitsOf, if_pos h]
      show 10 * 0 + digitValue (Char.ofNat (48 + n)) = n
      rw [digitValue_ofNat h]
      omega
  | case2 n h ih =>
      rw [digitsOf, if_neg h, digitsValue_concat, ih, digitValue_ofNat (Nat.mod_lt n (by omega))]
      omega

theorem isDigits_digitsOf (n : Nat) : IsDigits (digitsOf n) := by
  induction n using digitsOf.induct with
  | case1 n h =>
      rw [digitsOf, if_pos h]
      refine ⟨nofun, ?_⟩
      intro c hc
      rw [List.mem_singleton.mp hc]
      exact isDigit_ofNat h
  | case2 n h ih =>
      rw [digitsOf, if_neg h]
      refine ⟨by simp, ?_⟩
      intro c hc
      rcases List.mem_append.mp hc with hc | hc
      · exact ih.2 c hc
      · rw [List.mem_singleton.mp hc]
        exact isDigit_ofNat (Nat.mod_lt n (by omega))

/-- Only zero is written with a zero in front. -/
theorem eq_zero_of_digitsOf (n : Nat) : (digitsOf n).head? = some '0' → n = 0 := by
  induction n using digitsOf.induct with
  | case1 n h =>
      rw [digitsOf, if_pos h]
      intro hzero
      exact ofNat_eq_zero h (Option.some.inj hzero)
  | case2 n h ih =>
      obtain ⟨d, ds, hds, -⟩ := (isDigits_digitsOf (n / 10)).exists_cons
      rw [digitsOf, if_neg h]
      rw [hds] at ih ⊢
      intro hzero
      have := ih hzero
      omega

theorem ofNat_wellFormed (n : Nat) : (ofNat n).WellFormed where
  whole := isDigits_digitsOf n
  leading := by
    intro h
    obtain rfl := eq_zero_of_digitsOf n h
    show digitsOf 0 = ['0']
    rw [digitsOf]
    rfl
  fraction := nofun
  exponent := nofun

theorem word?_ofNat {n : Nat} (h : n < Word.size) : (ofNat n).word? = some n := by
  have hvalue : digitsValue (ofNat n).whole = n := digitsValue_digitsOf n
  rw [word?, hvalue, if_pos ⟨rfl, rfl, rfl, h⟩]

end PatternCount.Numeral
