import PatternCount.Json.Numeral
import PatternCount.Json.Quoted

/-!
# Tokens of JSON

`Token.scan` cuts a text into tokens and drops the blanks between them. It answers for every text: where no
token begins, the list ends in `bad`. A text read by its tokens is therefore read as far as it goes, and
blanks between tokens make no difference.
-/

namespace PatternCount

inductive Token where
  | openBracket
  | closeBracket
  | openBrace
  | closeBrace
  | comma
  | colon
  | null
  | bool (b : Bool)
  | numeral (n : Numeral)
  /-- A string literal, by the text it denotes if it denotes one. -/
  | text (s : Option String)
  /-- A place where no token begins. -/
  | bad
deriving DecidableEq, Repr

namespace Token

def isBlank (c : Char) : Bool := c = ' ' || c = '\t' || c = '\n' || c = '\r'

def punctuation? : Char → Option Token
  | '[' => some .openBracket
  | ']' => some .closeBracket
  | '\x7b' => some .openBrace
  | '\x7d' => some .closeBrace
  | ',' => some .comma
  | ':' => some .colon
  | _ => none

/-- The token of more than one character at the front of a text, and what follows it. -/
def lexeme? : List Char → Option (Token × List Char)
  | '"' :: cs => (Quoted.scan? cs).map fun (pieces, rest) => (.text (Quoted.text? pieces), rest)
  | 'n' :: 'u' :: 'l' :: 'l' :: cs => some (.null, cs)
  | 't' :: 'r' :: 'u' :: 'e' :: cs => some (.bool true, cs)
  | 'f' :: 'a' :: 'l' :: 's' :: 'e' :: cs => some (.bool false, cs)
  | cs => (Numeral.scan? cs).map fun (n, rest) => (.numeral n, rest)

theorem lexeme?_length {cs rest : List Char} {t : Token} (h : lexeme? cs = some (t, rest)) :
    rest.length < cs.length := by
  unfold lexeme? at h
  split at h
  · simp only [Option.map_eq_some_iff, Prod.mk.injEq, Prod.exists] at h
    obtain ⟨pieces, r, h, -, rfl⟩ := h
    have := Quoted.scan?_length h
    simp only [List.length_cons]
    omega
  · simp only [Option.some.injEq, Prod.mk.injEq] at h
    simp only [← h.2, List.length_cons]
    omega
  · simp only [Option.some.injEq, Prod.mk.injEq] at h
    simp only [← h.2, List.length_cons]
    omega
  · simp only [Option.some.injEq, Prod.mk.injEq] at h
    simp only [← h.2, List.length_cons]
    omega
  · simp only [Option.map_eq_some_iff, Prod.mk.injEq, Prod.exists] at h
    obtain ⟨n, r, h, -, rfl⟩ := h
    exact Numeral.scan?_length h

def scan (cs : List Char) : List Token :=
  match cs with
  | [] => []
  | c :: rest =>
      if isBlank c then scan rest
      else
        match punctuation? c with
        | some t => t :: scan rest
        | none =>
            match _h : lexeme? (c :: rest) with
            | some (t, after) => t :: scan after
            | none => [.bad]
termination_by cs.length
decreasing_by
  · exact Nat.lt_add_one _
  · exact Nat.lt_add_one _
  · exact lexeme?_length _h

def chars : Token → List Char
  | openBracket => ['[']
  | closeBracket => [']']
  | openBrace => ['\x7b']
  | closeBrace => ['\x7d']
  | comma => [',']
  | colon => [':']
  | null => ['n', 'u', 'l', 'l']
  | bool true => ['t', 'r', 'u', 'e']
  | bool false => ['f', 'a', 'l', 's', 'e']
  | numeral n => n.chars
  | text s => Quoted.chars s
  | bad => ['\x00']

end Token

end PatternCount
