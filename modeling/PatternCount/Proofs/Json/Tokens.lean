import PatternCount.Json.Token
import PatternCount.Proofs.Json.Numerals
import PatternCount.Proofs.Json.Quoted

/-!
# How a list of tokens is spelled

A token is spelled by a lexeme (`Token.Lexeme`), a list of tokens by a lexeme for each with any blanks before,
between and after them (`Token.Spaced`). Most lexemes end by themselves. A numeral does not, and two of them
without a blank between would run together; in a JSON text a numeral has a mark or the end behind it
(`Token.Separated`), and then the tokens that are scanned are the ones that were spelled (`scan_spaced`).
-/

namespace PatternCount.Token

/-! ## The grammar -/

inductive Lexeme : Token → List Char → Prop
  | mark {t : Token} {c : Char} : punctuation? c = some t → Lexeme t [c]
  | null : Lexeme .null Token.null.chars
  | bool (b : Bool) : Lexeme (.bool b) (Token.bool b).chars
  | numeral {n : Numeral} {cs : List Char} : n.Spells cs → Lexeme (.numeral n) cs
  | text {pieces : List Quoted.Piece} {cs : List Char} : Quoted.Spells pieces cs →
      Lexeme (.text (Quoted.text? pieces)) ('"' :: (cs ++ ['"']))

def AllBlank (cs : List Char) : Prop := ∀ c ∈ cs, isBlank c = true

inductive Spaced : List Token → List Char → Prop
  | done {blanks : List Char} : AllBlank blanks → Spaced [] blanks
  | token {blanks cs rest : List Char} {t : Token} {ts : List Token} : AllBlank blanks → Lexeme t cs →
      Spaced ts rest → Spaced (t :: ts) (blanks ++ (cs ++ rest))

/-- Brackets, braces, commas and colons. -/
def isMark : Token → Bool
  | openBracket | closeBracket | openBrace | closeBrace | comma | colon => true
  | _ => false

def isNumeral : Token → Bool
  | numeral _ => true
  | _ => false

/-- What comes after a numeral is a mark. -/
def Separated : List Token → Prop
  | [] => True
  | t :: ts => (t.isNumeral = true → ∀ u ∈ ts.head?, u.isMark = true) ∧ Separated ts

/-- What is written before these tokens may end in a numeral. -/
def Closing (ts : List Token) : Prop := Separated ts ∧ ∀ t ∈ ts.head?, t.isMark = true

theorem Separated.cons_of_not_numeral {t : Token} {ts : List Token} (ht : t.isNumeral = false)
    (h : Separated ts) : Separated (t :: ts) := by
  refine ⟨?_, h⟩
  intro hnumeral
  rw [ht] at hnumeral
  cases hnumeral

theorem Closing.cons {t : Token} {ts : List Token} (h : Closing ts) : Separated (t :: ts) :=
  ⟨fun _ => h.2, h.1⟩

theorem Separated.closing_cons {t : Token} {ts : List Token} (ht : t.isMark = true) (h : Separated (t :: ts)) :
    Closing (t :: ts) := by
  refine ⟨h, ?_⟩
  rintro u ⟨⟩
  exact ht

theorem closing_nil : Closing [] := ⟨trivial, nofun⟩

/-! ## What a lexeme begins with -/

theorem ends_of_isBlank {c : Char} {cs : List Char} (h : isBlank c = true) : Numeral.Ends (c :: cs) := by
  simp only [isBlank, Bool.or_eq_true, decide_eq_true_eq] at h
  rintro c ⟨⟩
  rcases h with ((rfl | rfl) | rfl) | rfl <;> decide

theorem isBlank_of_punctuation {c : Char} {t : Token} (h : punctuation? c = some t) : isBlank c = false := by
  unfold punctuation? at h
  split at h <;> first
    | rfl
    | cases h

theorem ends_of_punctuation {c : Char} {cs : List Char} {t : Token} (h : punctuation? c = some t) :
    Numeral.Ends (c :: cs) := by
  rintro c ⟨⟩
  unfold punctuation? at h
  split at h <;> first
    | decide
    | cases h

/-- A mark, a blank or the end stops a numeral. -/
theorem Spaced.ends {ts : List Token} {cs : List Char} (h : Spaced ts cs)
    (hmark : ∀ t ∈ ts.head?, t.isMark = true) : Numeral.Ends cs := by
  have blank : ∀ {blanks rest : List Char}, AllBlank blanks → Numeral.Ends rest →
      Numeral.Ends (blanks ++ rest) := by
    intro blanks rest hb hrest
    cases blanks with
    | nil => exact hrest
    | cons b bs => exact ends_of_isBlank (hb b List.mem_cons_self)
  cases h with
  | done hb =>
      rw [← List.append_nil cs]
      exact blank hb nofun
  | token hb hlex _ =>
      refine blank hb ?_
      have ht := hmark _ rfl
      cases hlex with
      | mark hc => exact ends_of_punctuation hc
      | null => cases ht
      | bool b => cases ht
      | numeral hn => cases ht
      | text hs => cases ht

/-! ## Scanning -/

theorem scan_blanks {blanks cs : List Char} (h : AllBlank blanks) : scan (blanks ++ cs) = scan cs := by
  induction blanks with
  | nil => rfl
  | cons b bs ih =>
      rw [List.cons_append, scan, if_pos (h b List.mem_cons_self), ih fun c hc => h c (List.mem_cons_of_mem b hc)]

theorem scan_mark {c : Char} {t : Token} {cs : List Char} (h : punctuation? c = some t) :
    scan (c :: cs) = t :: scan cs := by
  rw [scan, isBlank_of_punctuation h, if_neg Bool.false_ne_true, h]

theorem scan_of_lexeme? {c : Char} {t : Token} {cs rest : List Char} (hblank : isBlank c = false)
    (hmark : punctuation? c = none) (h : lexeme? (c :: cs) = some (t, rest)) :
    scan (c :: cs) = t :: scan rest := by
  rw [scan, hblank, if_neg Bool.false_ne_true, hmark]
  simp only
  split
  · next heq =>
      rw [h] at heq
      cases heq
      rfl
  · next heq =>
      rw [h] at heq
      cases heq

/-- A numeral begins with none of the characters with which another token does. -/
theorem scan_numeral {n : Numeral} {cs rest : List Char} (h : n.Spells cs) (hrest : Numeral.Ends rest) :
    scan (cs ++ rest) = .numeral n :: scan rest := by
  have hscan := Numeral.scan?_eq h hrest
  obtain ⟨c, tail, rfl, hc⟩ := h.exists_cons
  have hne : ∀ d, Numeral.isDigit d = false → d ≠ '-' → c ≠ d := by
    intro d hdigit hminus
    obtain hc | rfl := hc
    · exact Numeral.ne_of_isDigit hc hdigit
    · exact hminus.symm
  rw [List.cons_append] at hscan ⊢
  apply scan_of_lexeme?
  · simp only [isBlank, Bool.or_eq_false_iff, decide_eq_false_iff_not]
    exact ⟨⟨⟨hne _ rfl (by decide), hne _ rfl (by decide)⟩, hne _ rfl (by decide)⟩, hne _ rfl (by decide)⟩
  · unfold punctuation?
    split <;> first
      | exact absurd rfl (hne _ rfl (by decide))
      | rfl
  · rw [lexeme?, hscan]
    · rfl
    · intro cs heq
      exact hne '"' rfl (by decide) (List.cons.inj heq).1
    · intro cs heq
      exact hne 'n' rfl (by decide) (List.cons.inj heq).1
    · intro cs heq
      exact hne 't' rfl (by decide) (List.cons.inj heq).1
    · intro cs heq
      exact hne 'f' rfl (by decide) (List.cons.inj heq).1

theorem Lexeme.scan_eq {t : Token} {cs rest : List Char} (h : Lexeme t cs)
    (hrest : t.isNumeral = true → Numeral.Ends rest) : scan (cs ++ rest) = t :: scan rest := by
  cases h with
  | mark hc => exact scan_mark hc
  | null => exact scan_of_lexeme? rfl rfl rfl
  | bool b =>
      cases b with
      | false => exact scan_of_lexeme? rfl rfl rfl
      | true => exact scan_of_lexeme? rfl rfl rfl
  | numeral hn => exact scan_numeral hn (hrest rfl)
  | @text pieces cs hs =>
      refine scan_of_lexeme? rfl rfl ?_
      show lexeme? ('"' :: (cs ++ ['"'] ++ rest)) = _
      rw [List.append_assoc, List.singleton_append, lexeme?, Quoted.scan?_eq hs]
      rfl

/-- The tokens of a text are those that it spells. -/
theorem scan_spaced {ts : List Token} {cs : List Char} (h : Spaced ts cs) (hsep : Separated ts) :
    scan cs = ts := by
  induction h with
  | @done blanks hb =>
      rw [← List.append_nil blanks, scan_blanks hb, scan]
  | token hb hlex hrest ih =>
      obtain ⟨hnext, htail⟩ := hsep
      rw [scan_blanks hb, hlex.scan_eq fun hnumeral => hrest.ends (hnext hnumeral), ih htail]

/-! ## Spelling tokens without blanks -/

theorem spaced_nil : Spaced [] [] := .done nofun

theorem Spaced.cons {t : Token} {ts : List Token} {cs rest : List Char} (ht : Lexeme t cs) (h : Spaced ts rest) :
    Spaced (t :: ts) (cs ++ rest) := @Spaced.token [] cs rest t ts nofun ht h

theorem Spaced.mark (c : Char) {t : Token} {ts : List Token} {cs : List Char} (hc : punctuation? c = some t)
    (h : Spaced ts cs) : Spaced (t :: ts) (c :: cs) := .cons (.mark hc) h

theorem Spaced.blanks_append {ts : List Token} {blanks cs : List Char} (hb : AllBlank blanks) (h : Spaced ts cs) :
    Spaced ts (blanks ++ cs) := by
  have append : ∀ {bs}, AllBlank bs → AllBlank (blanks ++ bs) := fun hbs c hc =>
    (List.mem_append.mp hc).elim (hb c) (hbs c)
  cases h with
  | done hbs => exact .done (append hbs)
  | token hbs ht h =>
      rw [← List.append_assoc]
      exact .token (append hbs) ht h

theorem lexeme_text (s : Option String) : Lexeme (.text s) (Quoted.chars s) := by
  obtain ⟨pieces, cs, rfl, hspells, hchars⟩ := Quoted.exists_spells_chars s
  rw [hchars]
  exact .text hspells

end PatternCount.Token
