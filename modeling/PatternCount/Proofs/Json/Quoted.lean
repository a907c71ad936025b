import PatternCount.Json.Quoted

/-!
# How a text is spelled between quotes

`Quoted.Spells` is the grammar of what stands between the quotes of a JSON string, and the pieces that it
gives are the ones that `Quoted.scan?` takes (`scan?_eq`). The same text can be spelled in many ways;
`exists_spells_chars` says that the one in which it is written denotes it.
-/

namespace PatternCount.Quoted

/-! ## The grammar -/

/-- The pieces that the characters between two quotes give. -/
inductive Spells : List Piece → List Char → Prop
  | nil : Spells [] []
  | plain {c : Char} {pieces : List Piece} {cs : List Char} : 0x20 ≤ c.toNat → c ≠ '"' → c ≠ '\\' →
      Spells pieces cs → Spells (.char c :: pieces) (c :: cs)
  | escape {e c : Char} {pieces : List Piece} {cs : List Char} : escape? e = some c →
      Spells pieces cs → Spells (.char c :: pieces) ('\\' :: e :: cs)
  | unit {a b c d : Char} {n : Nat} {pieces : List Piece} {cs : List Char} : unit? a b c d = some n →
      Spells pieces cs → Spells (.unit n :: pieces) ('\\' :: 'u' :: a :: b :: c :: d :: cs)

/-- The pieces are read up to the closing quote. -/
theorem scan?_eq {pieces : List Piece} {cs : List Char} (h : Spells pieces cs) (rest : List Char) :
    scan? (cs ++ '"' :: rest) = some (pieces, rest) := by
  induction h with
  | nil => rw [List.nil_append, scan?]
  | plain hc hquote hslash _ ih =>
      rw [List.cons_append, scan?, ih, if_neg (not_or.mpr ⟨Nat.not_lt.mpr hc, hslash⟩)]
      · rfl
      · exact hquote
      · rintro a b c d rest' rfl
        exact absurd rfl hslash
      · rintro e rest' rfl
        exact absurd rfl hslash
  | @escape e c pieces cs he _ ih =>
      -- A `u` is no escape by itself, so the four digits that come after one are not asked for.
      have hunit : e ≠ 'u' := by
        rintro rfl
        cases he
      rw [List.cons_append, List.cons_append, scan?, he, ih]
      · rfl
      · rintro a b c d rest' rfl
        exact absurd rfl hunit
  | unit hn _ ih =>
      rw [List.cons_append, List.cons_append, List.cons_append, List.cons_append, List.cons_append,
        List.cons_append, scan?, hn, ih]
      rfl

/-! ## The spelling in which a text is written -/

/-- The piece denotes the character, whatever comes after it. -/
def Denotes (p : Piece) (c : Char) : Prop := ∀ pieces, decode? (p :: pieces) = (decode? pieces).map (c :: ·)

theorem denotes_char (c : Char) : Denotes (.char c) c := fun _ => rfl

/-- A unit that is no half of a pair is a character by itself. -/
theorem denotes_unit {c : Char} (h : c.toNat < 0x20) : Denotes (.unit c.toNat) c := by
  intro pieces
  have hhigh : isHighHalf c.toNat = false := by
    rw [isHighHalf, decide_eq_false (by omega), Bool.false_and]
  have hlow : isLowHalf c.toNat = false := by
    rw [isLowHalf, decide_eq_false (by omega), Bool.false_and]
  have hchar : Char.ofNat c.toNat = c := Char.ofNat_toNat c
  match pieces with
  | [] => simp only [decode?, hhigh, hlow, hchar, Bool.or_self, Bool.false_eq_true, if_false]
  | .char d :: rest => simp only [decode?, hhigh, hlow, hchar, Bool.or_self, Bool.false_eq_true, if_false]
  | .unit m :: rest => rw [decode?, hhigh, hlow, hchar, if_neg Bool.false_ne_true, if_neg Bool.false_ne_true]

theorem unit?_digits : ∀ {n : Nat}, n < 0x20 →
    unit? '0' '0' (Hex.digit (n / 16)) (Hex.digit (n % 16)) = some n := by decide

/-- The three ways in which a character is written. -/
theorem encodeChar_cases (c : Char) :
    (∃ e, escape? e = some c ∧ encodeChar c = ['\\', e])
      ∨ (c.toNat < 0x20
          ∧ encodeChar c = ['\\', 'u', '0', '0', Hex.digit (c.toNat / 16), Hex.digit (c.toNat % 16)])
      ∨ ((0x20 ≤ c.toNat ∧ c ≠ '"' ∧ c ≠ '\\') ∧ encodeChar c = [c]) := by
  have escaped : ∀ {d e : Char}, c = d → escape? e = some d → encodeChar d = ['\\', e] →
      ∃ e, escape? e = some c ∧ encodeChar c = ['\\', e] := by
    rintro d e rfl he hd
    exact ⟨e, he, hd⟩
  by_cases hquote : c = '"'
  · exact .inl (escaped (e := '"') hquote rfl rfl)
  by_cases hslash : c = '\\'
  · exact .inl (escaped (e := '\\') hslash rfl rfl)
  by_cases hb : c = '\x08'
  · exact .inl (escaped (e := 'b') hb rfl rfl)
  by_cases hf : c = '\x0c'
  · exact .inl (escaped (e := 'f') hf rfl rfl)
  by_cases hn : c = '\n'
  · exact .inl (escaped (e := 'n') hn rfl rfl)
  by_cases hr : c = '\r'
  · exact .inl (escaped (e := 'r') hr rfl rfl)
  by_cases ht : c = '\t'
  · exact .inl (escaped (e := 't') ht rfl rfl)
  rw [encodeChar, if_neg hquote, if_neg hslash, if_neg hb, if_neg hf, if_neg hn, if_neg hr, if_neg ht]
  by_cases hcontrol : c.toNat < 0x20
  · exact .inr (.inl ⟨hcontrol, if_pos hcontrol⟩)
  · exact .inr (.inr ⟨⟨Nat.le_of_not_lt hcontrol, hquote, hslash⟩, if_neg hcontrol⟩)

theorem spells_encodeChar (c : Char) : ∃ p, Denotes p c ∧
    ∀ {pieces cs}, Spells pieces cs → Spells (p :: pieces) (encodeChar c ++ cs) := by
  obtain ⟨e, he, hc⟩ | ⟨hcontrol, hc⟩ | ⟨⟨hcontrol, hquote, hslash⟩, hc⟩ := encodeChar_cases c
  · rw [hc]
    exact ⟨.char c, denotes_char c, fun h => .escape he h⟩
  · rw [hc]
    exact ⟨.unit c.toNat, denotes_unit hcontrol, fun h => .unit (unit?_digits hcontrol) h⟩
  · rw [hc]
    exact ⟨.char c, denotes_char c, fun h => .plain hcontrol hquote hslash h⟩

theorem exists_spells_encode : ∀ cs : List Char,
    ∃ pieces, decode? pieces = some cs ∧ Spells pieces (cs.flatMap encodeChar)
  | [] => ⟨[], rfl, .nil⟩
  | c :: cs => by
      obtain ⟨pieces, hdecode, hspells⟩ := exists_spells_encode cs
      obtain ⟨p, hdenotes, hp⟩ := spells_encodeChar c
      refine ⟨p :: pieces, ?_, ?_⟩
      · rw [hdenotes, hdecode]
        rfl
      · rw [List.flatMap_cons]
        exact hp hspells

/-- A text, or the want of one, is written as a literal that denotes it. -/
theorem exists_spells_chars (s : Option String) :
    ∃ pieces cs, text? pieces = s ∧ Spells pieces cs ∧ chars s = '"' :: (cs ++ ['"']) := by
  cases s with
  | none => exact ⟨[.unit 0xD800], ['\\', 'u', 'd', '8', '0', '0'], rfl, .unit rfl .nil, rfl⟩
  | some s =>
      obtain ⟨pieces, hdecode, hspells⟩ := exists_spells_encode s.toList
      refine ⟨pieces, _, ?_, hspells, rfl⟩
      rw [text?, hdecode, Option.map_some, String.ofList_toList]

end PatternCount.Quoted
