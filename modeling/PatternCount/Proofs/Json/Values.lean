import PatternCount.Json.Basic
import PatternCount.Proofs.Json.Tokens

/-!
# How a value is spelled

`Json.tokens` lists the tokens of a value, and a text spells the value if it spells these, with blanks
wherever it likes. `ofTokens?_scan` says that the value is what is then read, and that nothing is left over.
The reader is a machine with a stack of open containers, so what is proved by induction on the value is how
the machine goes on: after the tokens of a value it stands where that value has been read, its stack and what
comes later untouched (`continue?_value`).

What is written spells what was to be written, if the layout has nothing but blanks and the numerals are those
of the grammar (`spaced_chars`). The fields of an object can be held if each of them can (`areFieldsStorable_iff`).
-/

namespace PatternCount.Json

open Token (Spaced Separated Closing AllBlank)

/-! ## The tokens of a value -/

mutual

def tokens : Json → List Token
  | .null => [.null]
  | .bool b => [.bool b]
  | .num n => [.numeral n]
  | .str s => [.text s]
  | .arr [] => [.openBracket, .closeBracket]
  | .arr (v :: rest) => .openBracket :: (tokens v ++ (itemTokens rest ++ [.closeBracket]))
  | .obj [] => [.openBrace, .closeBrace]
  | .obj ((k, v) :: rest) =>
      .openBrace :: .text k :: .colon :: (tokens v ++ (fieldTokens rest ++ [.closeBrace]))

def itemTokens : List Json → List Token
  | [] => []
  | v :: rest => .comma :: (tokens v ++ itemTokens rest)

def fieldTokens : List (Option String × Json) → List Token
  | [] => []
  | (k, v) :: rest => .comma :: .text k :: .colon :: (tokens v ++ fieldTokens rest)

end

/-- The end of an array is not the beginning of a value. -/
theorem exists_tokens_cons (v : Json) : ∃ t tail, v.tokens = t :: tail ∧ t ≠ .closeBracket := by
  match v with
  | .null => exact ⟨_, _, rfl, nofun⟩
  | .bool b => exact ⟨_, _, rfl, nofun⟩
  | .num n => exact ⟨_, _, rfl, nofun⟩
  | .str s => exact ⟨_, _, rfl, nofun⟩
  | .arr [] => exact ⟨_, _, rfl, nofun⟩
  | .arr (_ :: _) => exact ⟨_, _, rfl, nofun⟩
  | .obj [] => exact ⟨_, _, rfl, nofun⟩
  | .obj ((_, _) :: _) => exact ⟨_, _, rfl, nofun⟩

/-! ## Reading -/

section Reading

variable {expect expect' : Expect} {opened opened' : List Opened} {t : Token} {ts : List Token}

theorem continue?_step (h : advance? expect t opened = some (expect', opened')) :
    continue? expect opened (t :: ts) = continue? expect' opened' ts := by
  rw [continue?, h]
  rintro v rfl rfl
  cases h

/-- An array that does not end at once has a value first. -/
theorem continue?_firstItem (v : Json) :
    continue? .firstItem opened (v.tokens ++ ts) = continue? .value (.array [] :: opened) (v.tokens ++ ts) := by
  obtain ⟨t, tail, htokens, ht⟩ := exists_tokens_cons v
  have hadvance : advance? .firstItem t opened = advance? .value t (.array [] :: opened) := by
    cases t with
    | closeBracket => exact absurd rfl ht
    | _ => rfl
  rw [htokens, List.cons_append, continue?, continue?, hadvance]
  · nofun
  · nofun

mutual

/-- The tokens of a value take the reader past that value, and do nothing else to it. -/
theorem continue?_value : ∀ (v : Json) {opened : List Opened} {ts : List Token},
    continue? .value opened (v.tokens ++ ts) = continue? (.after v) opened ts
  | .null, _, _ => continue?_step rfl
  | .bool _, _, _ => continue?_step rfl
  | .num _, _, _ => continue?_step rfl
  | .str _, _, _ => continue?_step rfl
  | .arr [], _, _ => by
      rw [tokens, List.cons_append, List.singleton_append, continue?_step rfl, continue?_step rfl]
  | .arr (v :: rest), _, _ => by
      rw [tokens, List.cons_append, List.append_assoc, List.append_assoc, List.singleton_append,
        continue?_step rfl, continue?_firstItem, continue?_value v, continue?_items rest, List.reverse_nil,
        List.nil_append]
  | .obj [], _, _ => by
      rw [tokens, List.cons_append, List.singleton_append, continue?_step rfl, continue?_step rfl]
  | .obj ((k, v) :: rest), _, _ => by
      rw [tokens, List.cons_append, List.cons_append, List.cons_append, List.append_assoc, List.append_assoc,
        List.singleton_append, continue?_step rfl, continue?_step rfl, continue?_step rfl, continue?_value v,
        continue?_fields rest, List.reverse_nil, List.nil_append]

/-- The items that are left end their array. -/
theorem continue?_items : ∀ (rest : List Json) {v : Json} {before : List Json} {opened : List Opened}
    {ts : List Token},
    continue? (.after v) (.array before :: opened) (itemTokens rest ++ .closeBracket :: ts)
      = continue? (.after (.arr (before.reverse ++ v :: rest))) opened ts
  | [], v, before, _, _ => by
      rw [itemTokens, List.nil_append, continue?_step rfl, List.reverse_cons]
  | w :: rest, v, before, _, _ => by
      rw [itemTokens, List.cons_append, List.append_assoc, continue?_step rfl, continue?_value w,
        continue?_items rest, List.reverse_cons, List.append_assoc, List.singleton_append]

theorem continue?_fields : ∀ (rest : List (Option String × Json)) {k : Option String} {v : Json}
    {before : List (Option String × Json)} {opened : List Opened} {ts : List Token},
    continue? (.after v) (.object before k :: opened) (fieldTokens rest ++ .closeBrace :: ts)
      = continue? (.after (.obj (before.reverse ++ (k, v) :: rest))) opened ts
  | [], k, v, before, _, _ => by
      rw [fieldTokens, List.nil_append, continue?_step rfl, List.reverse_cons]
  | (l, w) :: rest, k, v, before, _, _ => by
      rw [fieldTokens, List.cons_append, List.cons_append, List.cons_append, List.append_assoc,
        continue?_step rfl, continue?_step rfl, continue?_step rfl, continue?_value w, continue?_fields rest,
        List.reverse_cons, List.append_assoc, List.singleton_append]

end

theorem ofTokens?_tokens (v : Json) (ts : List Token) : ofTokens? (v.tokens ++ ts) = some (v, ts) := by
  rw [ofTokens?, continue?_value, continue?]

end Reading

/-! ## Separated tokens -/

mutual

theorem separated_tokens_append : ∀ (v : Json) {ts : List Token}, Closing ts → Separated (v.tokens ++ ts)
  | .null, _, h => h.1.cons_of_not_numeral rfl
  | .bool _, _, h => h.1.cons_of_not_numeral rfl
  | .num _, _, h => h.cons
  | .str _, _, h => h.1.cons_of_not_numeral rfl
  | .arr [], _, h => (h.1.cons_of_not_numeral rfl).cons_of_not_numeral rfl
  | .arr (v :: rest), _, h => by
      rw [tokens, List.cons_append, List.append_assoc, List.append_assoc, List.singleton_append]
      have hend := (h.1.cons_of_not_numeral (t := .closeBracket) rfl).closing_cons rfl
      exact (separated_tokens_append v (closing_itemTokens rest hend)).cons_of_not_numeral rfl
  | .obj [], _, h => (h.1.cons_of_not_numeral rfl).cons_of_not_numeral rfl
  | .obj ((k, v) :: rest), _, h => by
      rw [tokens, List.cons_append, List.cons_append, List.cons_append, List.append_assoc, List.append_assoc,
        List.singleton_append]
      have hend := (h.1.cons_of_not_numeral (t := .closeBrace) rfl).closing_cons rfl
      have hv := separated_tokens_append v (closing_fieldTokens rest hend)
      exact ((hv.cons_of_not_numeral rfl).cons_of_not_numeral rfl).cons_of_not_numeral rfl

theorem closing_itemTokens : ∀ (items : List Json) {ts : List Token}, Closing ts →
    Closing (itemTokens items ++ ts)
  | [], _, h => h
  | v :: rest, _, h => by
      rw [itemTokens, List.cons_append, List.append_assoc]
      have hv := separated_tokens_append v (closing_itemTokens rest h)
      exact (hv.cons_of_not_numeral rfl).closing_cons rfl

theorem closing_fieldTokens : ∀ (fields : List (Option String × Json)) {ts : List Token}, Closing ts →
    Closing (fieldTokens fields ++ ts)
  | [], _, h => h
  | (k, v) :: rest, _, h => by
      rw [fieldTokens, List.cons_append, List.cons_append, List.cons_append, List.append_assoc]
      have hv := separated_tokens_append v (closing_fieldTokens rest h)
      exact (((hv.cons_of_not_numeral rfl).cons_of_not_numeral rfl).cons_of_not_numeral rfl).closing_cons rfl

end

theorem separated_tokens (v : Json) : Separated v.tokens := by
  rw [← List.append_nil v.tokens]
  exact separated_tokens_append v Token.closing_nil

/-- A text that spells a value reads as that value, up to its end. -/
theorem ofTokens?_scan {v : Json} {cs : List Char} (h : Spaced v.tokens cs) :
    ofTokens? (Token.scan cs) = some (v, []) := by
  rw [Token.scan_spaced h (separated_tokens v), ← List.append_nil v.tokens, ofTokens?_tokens]

/-! ## Writing -/

/-- All numerals in the value are those of the grammar. -/
inductive WellFormed : Json → Prop
  | null : WellFormed .null
  | bool (b : Bool) : WellFormed (.bool b)
  | num {n : Numeral} : n.WellFormed → WellFormed (.num n)
  | str (s : Option String) : WellFormed (.str s)
  | arr {items : List Json} : (∀ v ∈ items, WellFormed v) → WellFormed (.arr items)
  | obj {fields : List (Option String × Json)} : (∀ f ∈ fields, WellFormed f.2) → WellFormed (.obj fields)

@[simp] theorem wellFormed_null : Json.null.WellFormed := .null

@[simp] theorem wellFormed_text (s : String) : (text s).WellFormed := .str (some s)

@[simp] theorem wellFormed_ofNat (n : Nat) : (ofNat n).WellFormed := .num (Numeral.ofNat_wellFormed n)

@[simp] theorem wellFormed_arr_iff {items : List Json} : (arr items).WellFormed ↔ ∀ v ∈ items, v.WellFormed := by
  constructor
  · rintro ⟨⟩
    assumption
  · exact .arr

@[simp] theorem wellFormed_record_iff {fields : List (String × Json)} :
    (record fields).WellFormed ↔ ∀ f ∈ fields, f.2.WellFormed := by
  constructor
  · rintro ⟨⟩ f hf
    next h => exact h _ (List.mem_map_of_mem hf)
  · intro h
    refine .obj ?_
    intro f hf
    obtain ⟨g, hg, rfl⟩ := List.mem_map.mp hf
    exact h g hg

/-- A layout with which nothing but blanks is written between the tokens. -/
structure Layout.IsBlank (layout : Layout) : Prop where
  opening : ∀ depth, AllBlank (layout.opening depth)
  between : ∀ depth, AllBlank (layout.between depth)
  closing : ∀ depth, AllBlank (layout.closing depth)
  afterColon : AllBlank layout.afterColon

theorem Layout.compact_isBlank : Layout.compact.IsBlank := ⟨nofun, nofun, nofun, nofun⟩

theorem allBlank_newLine (depth : Nat) : AllBlank (newLine depth) := by
  intro c hc
  rcases List.mem_cons.mp hc with rfl | hc
  · rfl
  · rw [List.eq_of_mem_replicate hc]
    rfl

theorem Layout.pretty_isBlank : Layout.pretty.IsBlank where
  opening depth := allBlank_newLine (depth + 1)
  between depth := allBlank_newLine (depth + 1)
  closing := allBlank_newLine
  afterColon := by
    intro c hc
    rw [List.mem_singleton.mp hc]
    rfl

section Writing

variable {layout : Layout}

mutual

theorem spaced_chars_append (hl : layout.IsBlank) : ∀ (v : Json), v.WellFormed → ∀ (depth : Nat) {ts : List Token}
    {rest : List Char}, Spaced ts rest → Spaced (v.tokens ++ ts) (chars layout depth v ++ rest)
  | .null, _, _, _, _, h => .cons .null h
  | .bool b, _, _, _, _, h => .cons (.bool b) h
  | .num n, .num hn, _, _, _, h => .cons (.numeral hn.spells_chars) h
  | .str s, _, _, _, _, h => .cons (Token.lexeme_text s) h
  | .arr [], _, _, _, _, h => .mark '[' rfl (.mark ']' rfl h)
  | .arr (v :: items), .arr hitems, depth, ts, rest, h => by
      obtain ⟨hv, hrest⟩ := List.forall_mem_cons.mp hitems
      have hend := (Spaced.mark ']' rfl h).blanks_append (hl.closing depth)
      have hinner := spaced_chars_append hl v hv (depth + 1) (spaced_itemChars hl items hrest depth hend)
      have := Spaced.mark '[' rfl (hinner.blanks_append (hl.opening depth))
      simpa only [tokens, chars, List.cons_append, List.append_assoc, List.nil_append] using this
  | .obj [], _, _, _, _, h => .mark '\x7b' rfl (.mark '\x7d' rfl h)
  | .obj ((k, v) :: fields), .obj hfields, depth, ts, rest, h => by
      obtain ⟨hv, hrest⟩ := List.forall_mem_cons.mp hfields
      have hend := (Spaced.mark '\x7d' rfl h).blanks_append (hl.closing depth)
      have hinner := spaced_chars_append hl v hv (depth + 1) (spaced_fieldChars hl fields hrest depth hend)
      have hcolon := Spaced.mark ':' rfl (hinner.blanks_append hl.afterColon)
      have hkey := (Spaced.cons (Token.lexeme_text k) hcolon).blanks_append (hl.opening depth)
      have := Spaced.mark '\x7b' rfl hkey
      simpa only [tokens, chars, List.cons_append, List.append_assoc, List.nil_append] using this

theorem spaced_itemChars (hl : layout.IsBlank) : ∀ (items : List Json), (∀ v ∈ items, v.WellFormed) →
    ∀ (depth : Nat) {ts : List Token} {rest : List Char}, Spaced ts rest →
      Spaced (itemTokens items ++ ts) (itemChars layout depth items ++ rest)
  | [], _, _, _, _, h => h
  | v :: items, hitems, depth, ts, rest, h => by
      obtain ⟨hv, hrest⟩ := List.forall_mem_cons.mp hitems
      have hinner := spaced_chars_append hl v hv (depth + 1) (spaced_itemChars hl items hrest depth h)
      have := Spaced.mark ',' rfl (hinner.blanks_append (hl.between depth))
      simpa only [itemTokens, itemChars, List.cons_append, List.append_assoc, List.nil_append] using this

theorem spaced_fieldChars (hl : layout.IsBlank) : ∀ (fields : List (Option String × Json)),
    (∀ f ∈ fields, f.2.WellFormed) → ∀ (depth : Nat) {ts : List Token} {rest : List Char}, Spaced ts rest →
      Spaced (fieldTokens fields ++ ts) (fieldChars layout depth fields ++ rest)
  | [], _, _, _, _, h => h
  | (k, v) :: fields, hfields, depth, ts, rest, h => by
      obtain ⟨hv, hrest⟩ := List.forall_mem_cons.mp hfields
      have hinner := spaced_chars_append hl v hv (depth + 1) (spaced_fieldChars hl fields hrest depth h)
      have hcolon := Spaced.mark ':' rfl (hinner.blanks_append hl.afterColon)
      have hkey := (Spaced.cons (Token.lexeme_text k) hcolon).blanks_append (hl.between depth)
      have := Spaced.mark ',' rfl hkey
      simpa only [fieldTokens, fieldChars, List.cons_append, List.append_assoc, List.nil_append] using this

end

/-- What is written for a value spells it. -/
theorem spaced_chars (hl : layout.IsBlank) {v : Json} (h : v.WellFormed) (depth : Nat) :
    Spaced v.tokens (chars layout depth v) := by
  have := spaced_chars_append hl v h depth Token.spaced_nil
  rwa [List.append_nil, List.append_nil] at this

end Writing

theorem spaced_compact {v : Json} (h : v.WellFormed) : Spaced v.tokens v.compact.toList := by
  rw [compact, String.toList_ofList]
  exact spaced_chars Layout.compact_isBlank h 0

theorem spaced_pretty {v : Json} (h : v.WellFormed) : Spaced v.tokens v.pretty.toList := by
  rw [pretty, String.toList_ofList]
  exact spaced_chars Layout.pretty_isBlank h 0

/-! ## Values that can be held in memory -/

theorem areFieldsStorable_iff {depth : Nat} {fields : List (Option String × Json)} :
    areFieldsStorable depth fields = true ↔ ∀ f ∈ fields, f.1.isSome = true ∧ f.2.isStorable depth = true := by
  induction fields with
  | nil => exact iff_of_true rfl nofun
  | cons f fields ih => rw [areFieldsStorable, Bool.and_eq_true, Bool.and_eq_true, ih, List.forall_mem_cons]

end PatternCount.Json
