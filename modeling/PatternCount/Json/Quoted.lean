import PatternCount.Text.Hex

/-!
# Quoted texts

A JSON string is a run of pieces between quotes: characters that stand for themselves, and escapes. An escape
`\uXXXX` gives a 16-bit unit; two of them, the halves of a surrogate pair, make one character, and a half on
its own makes none, so a literal can be well formed and still denote no text. `scan?` takes the pieces from
the front of an input, `decode?` is the text they denote, and `chars` writes a text.
-/

namespace PatternCount.Quoted

inductive Piece where
  | char (c : Char)
  /-- A 16-bit unit given by its four hexadecimal digits. -/
  | unit (n : Nat)
deriving DecidableEq, Repr

/-! ## Reading -/

/-- The unit that four hexadecimal digits write. -/
def unit? (a b c d : Char) : Option Nat := do
  return 4096 * (← Hex.value? a) + 256 * (← Hex.value? b) + 16 * (← Hex.value? c) + (← Hex.value? d)

def escape? : Char → Option Char
  | '"' => some '"'
  | '\\' => some '\\'
  | '/' => some '/'
  | 'b' => some '\x08'
  | 'f' => some '\x0c'
  | 'n' => some '\n'
  | 'r' => some '\r'
  | 't' => some '\t'
  | _ => none

/-- The pieces up to the closing quote, and what follows it. Control characters cannot stand for
themselves. -/
def scan? : List Char → Option (List Piece × List Char)
  | [] => none
  | '"' :: rest => some ([], rest)
  | '\\' :: 'u' :: a :: b :: c :: d :: rest => do
      let n ← unit? a b c d
      let (pieces, rest) ← scan? rest
      return (.unit n :: pieces, rest)
  | '\\' :: e :: rest => do
      let c ← escape? e
      let (pieces, rest) ← scan? rest
      return (.char c :: pieces, rest)
  | c :: rest =>
      if c.toNat < 0x20 ∨ c = '\\' then none
      else do
        let (pieces, rest) ← scan? rest
        return (.char c :: pieces, rest)

theorem scan?_length : ∀ {cs rest : List Char} {pieces : List Piece},
    scan? cs = some (pieces, rest) → rest.length < cs.length := by
  intro cs
  fun_induction scan? cs with
  | case1 => simp
  | case2 => rintro _ _ ⟨⟩; simp
  | case3 a b c d rest ih =>
      intro rest' pieces h
      simp only [Option.bind_eq_bind, Option.bind_eq_some_iff, Option.pure_def, Option.some.injEq,
        Prod.mk.injEq, Prod.exists] at h
      obtain ⟨n, -, ps, r, h, -, rfl⟩ := h
      have := ih h
      simp only [List.length_cons]
      omega
  | case4 e rest _ ih =>
      intro rest' pieces h
      simp only [Option.bind_eq_bind, Option.bind_eq_some_iff, Option.pure_def, Option.some.injEq,
        Prod.mk.injEq, Prod.exists] at h
      obtain ⟨n, -, ps, r, h, -, rfl⟩ := h
      have := ih h
      simp only [List.length_cons]
      omega
  | case5 => simp
  | case6 c rest _ _ _ _ ih =>
      intro rest' pieces h
      simp only [Option.bind_eq_bind, Option.bind_eq_some_iff, Option.pure_def, Option.some.injEq,
        Prod.mk.injEq, Prod.exists] at h
      obtain ⟨ps, r, h, -, rfl⟩ := h
      have := ih h
      simp only [List.length_cons]
      omega

def isHighHalf (n : Nat) : Bool := 0xD800 ≤ n && n < 0xDC00

def isLowHalf (n : Nat) : Bool := 0xDC00 ≤ n && n < 0xE000

def joinHalves (high low : Nat) : Char :=
  Char.ofNat (0x10000 + 1024 * (high - 0xD800) + (low - 0xDC00))

/-- The characters that the pieces denote. -/
def decode? : List Piece → Option (List Char)
  | [] => some []
  | .char c :: rest => (decode? rest).map (c :: ·)
  | .unit n :: .unit m :: rest =>
      if isHighHalf n then
        if isLowHalf m then (decode? rest).map (joinHalves n m :: ·) else none
      else if isLowHalf n then none
      else (decode? (.unit m :: rest)).map (Char.ofNat n :: ·)
  | .unit n :: rest =>
      if isHighHalf n || isLowHalf n then none else (decode? rest).map (Char.ofNat n :: ·)

def text? (pieces : List Piece) : Option String := (decode? pieces).map String.ofList

/-! ## Writing -/

/-- A character as it stands between quotes: quote, backslash and control characters are escaped. -/
def encodeChar (c : Char) : List Char :=
  if c = '"' then ['\\', '"']
  else if c = '\\' then ['\\', '\\']
  else if c = '\x08' then ['\\', 'b']
  else if c = '\x0c' then ['\\', 'f']
  else if c = '\n' then ['\\', 'n']
  else if c = '\r' then ['\\', 'r']
  else if c = '\t' then ['\\', 't']
  else if c.toNat < 0x20 then ['\\', 'u', '0', '0', Hex.digit (c.toNat / 16), Hex.digit (c.toNat % 16)]
  else [c]

/-- A literal that denotes no text. -/
def brokenLiteral : List Char := ['"', '\\', 'u', 'd', '8', '0', '0', '"']

/-- A text between quotes. Where there is none, the literal is one that denotes none. -/
def chars : Option String → List Char
  | some s => '"' :: s.toList.flatMap encodeChar ++ ['"']
  | none => brokenLiteral

end PatternCount.Quoted
