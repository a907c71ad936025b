import PatternCount.Proofs.Pattern.Digits

/-!
# Patterns come back from matrices

The digits of a text are a matrix if there are as many as a square of some side has cells, they agree on both sides of
the diagonal, and all on it are zero (`IsMatrix`). These texts are read, no others, and what is read is written with
the same digits. In the other direction a pattern is told from all others by its digits, and so what is written is
read as the pattern that it was.
-/

namespace PatternCount.Pattern

/-! ## Sides -/

theorem side?_eq_some_iff {cells n : Nat} : side? cells = some n ↔ (0 < n ∧ n ≤ maxPatternSize) ∧ n * n = cells := by
  have hmem : ∀ n, n ∈ List.range' 1 maxPatternSize ↔ 0 < n ∧ n ≤ maxPatternSize := fun n => by
    rw [List.mem_range'_1]
    omega
  have hfound : ∀ {n}, side? cells = some n → (0 < n ∧ n ≤ maxPatternSize) ∧ n * n = cells := fun {n} h =>
    ⟨(hmem n).mp (List.mem_of_find?_eq_some h), by simpa using List.find?_some h⟩
  refine ⟨hfound, fun ⟨hn, hcells⟩ => ?_⟩
  cases hside : side? cells with
  | none =>
      have hne := List.find?_eq_none.mp hside n ((hmem n).mpr hn)
      rw [decide_eq_true_eq] at hne
      exact absurd hcells hne
  | some m => rw [Nat.mul_self_inj.mp ((hfound hside).2.trans hcells.symm)]

/-! ## Edges -/

section Edges

variable {cells : Array Bool} {size a : Nat}

theorem rowEdges_eq_ok_iff {later : List Nat} {edges : List (Nat × Nat)} :
    rowEdges cells size a later = .ok edges ↔ (∀ b ∈ later, entry cells size a b = entry cells size b a) ∧
      edges = (later.filter (entry cells size a)).map fun b => (a, b) := by
  induction later generalizing edges with
  | nil =>
      rw [rowEdges]
      exact ⟨fun h => ⟨nofun, (Except.ok.inj h).symm⟩, fun h => congrArg Except.ok h.2.symm⟩
  | cons b later ih =>
      rw [rowEdges, List.forall_mem_cons]
      by_cases hsymm : entry cells size a b = entry cells size b a
      · rw [if_pos hsymm, bind_eq_ok_iff]
        constructor
        · rintro ⟨rest, hrest, h⟩
          obtain ⟨hlater, rfl⟩ := ih.mp hrest
          refine ⟨⟨hsymm, hlater⟩, (Except.ok.inj h).symm.trans ?_⟩
          by_cases hb : entry cells size a b = true <;> simp [hb]
        · rintro ⟨⟨-, hlater⟩, rfl⟩
          refine ⟨_, ih.mpr ⟨hlater, rfl⟩, congrArg Except.ok ?_⟩
          by_cases hb : entry cells size a b = true <;> simp [hb]
      · rw [if_neg hsymm]
        exact ⟨nofun, fun h => absurd h.1.1 hsymm⟩

/-- Row `a` is that of a pattern. -/
def RowGood (cells : Array Bool) (size a : Nat) : Prop :=
  entry cells size a a = false ∧
    ∀ b ∈ List.range' (a + 1) (size - (a + 1)), entry cells size a b = entry cells size b a

theorem matrixEdges_eq_ok_iff {rows : List Nat} {edges : List (Nat × Nat)} :
    matrixEdges cells size rows = .ok edges ↔ (∀ a ∈ rows, RowGood cells size a) ∧
      edges = rows.flatMap fun a =>
        ((List.range' (a + 1) (size - (a + 1))).filter (entry cells size a)).map fun b => (a, b) := by
  induction rows generalizing edges with
  | nil =>
      rw [matrixEdges]
      exact ⟨fun h => ⟨nofun, (Except.ok.inj h).symm⟩, fun h => congrArg Except.ok h.2.symm⟩
  | cons a rows ih =>
      rw [matrixEdges, List.forall_mem_cons]
      by_cases hdiagonal : entry cells size a a = true
      · rw [if_pos hdiagonal]
        refine ⟨nofun, fun h => ?_⟩
        rw [h.1.1.1] at hdiagonal
        cases hdiagonal
      · rw [if_neg hdiagonal, bind_eq_ok_iff]
        constructor
        · rintro ⟨first, hfirst, h⟩
          obtain ⟨hrow, rfl⟩ := rowEdges_eq_ok_iff.mp hfirst
          obtain ⟨rest, hrest, h⟩ := bind_eq_ok_iff.mp h
          obtain ⟨hrows, rfl⟩ := ih.mp hrest
          exact ⟨⟨⟨Bool.eq_false_iff.mpr hdiagonal, hrow⟩, hrows⟩, (Except.ok.inj h).symm⟩
        · rintro ⟨⟨hrow, hrows⟩, rfl⟩
          exact ⟨_, rowEdges_eq_ok_iff.mpr ⟨hrow.2, rfl⟩, bind_eq_ok_iff.mpr ⟨_, ih.mpr ⟨hrows, rfl⟩, rfl⟩⟩

/-- The edges above the diagonal of a matrix. -/
def edgesOf (cells : Array Bool) (size : Nat) : List (Nat × Nat) :=
  (List.range size).flatMap fun a =>
    ((List.range' (a + 1) (size - (a + 1))).filter (entry cells size a)).map fun b => (a, b)

theorem mem_edgesOf {b : Nat} : (a, b) ∈ edgesOf cells size ↔ (a < b ∧ b < size) ∧ entry cells size a b = true := by
  simp only [edgesOf, List.mem_flatMap, List.mem_range, List.mem_map, List.mem_filter, List.mem_range'_1,
    Prod.mk.injEq]
  constructor
  · rintro ⟨a, ha, b, ⟨hb, hentry⟩, rfl, rfl⟩
    exact ⟨by omega, hentry⟩
  · rintro ⟨⟨hab, hb⟩, hentry⟩
    exact ⟨a, by omega, b, ⟨by omega, hentry⟩, rfl, rfl⟩

/-- Where all rows are those of a pattern, their edges make one that has just these. -/
theorem ofEdges_edgesOf (hpos : 0 < size) (hle : size ≤ maxPatternSize)
    (hgood : ∀ a ∈ List.range size, RowGood cells size a) :
    ∃ p, ofEdges size (edgesOf cells size) = .ok p ∧ p.size = size ∧
      ∀ a b, a < size → b < size → (p.Adjacent a b ↔ entry cells size a b = true) := by
  have hvalid : ∀ e ∈ edgesOf cells size, e.1 < size ∧ e.2 < size ∧ e.1 ≠ e.2 := fun ⟨a, b⟩ he => by
    obtain ⟨⟨hab, hb⟩, -⟩ := mem_edgesOf.mp he
    exact ⟨Nat.lt_trans hab hb, hb, Nat.ne_of_lt hab⟩
  obtain ⟨p, hp⟩ := ofEdges_eq_ok_iff.mpr ⟨⟨hpos, hle⟩, hvalid⟩
  obtain ⟨hsize, hadjacent⟩ := adjacent_of_ofEdges hp
  have hsymm : ∀ a b, a < b → b < size → entry cells size a b = entry cells size b a := fun a b hab hb =>
    (hgood a (List.mem_range.mpr (Nat.lt_trans hab hb))).2 b (List.mem_range'_1.mpr (by omega))
  refine ⟨p, hp, hsize, fun a b ha hb => ?_⟩
  rw [hadjacent, mem_edgesOf, mem_edgesOf]
  rcases Nat.lt_trichotomy a b with hab | rfl | hab
  · rw [or_iff_left fun h => Nat.lt_asymm hab h.1.1, and_iff_right ⟨hab, hb⟩]
  · rw [(hgood a (List.mem_range.mpr ha)).1]
    simp
  · rw [or_iff_right fun h => Nat.lt_asymm hab h.1.1, and_iff_right ⟨hab, ha⟩, hsymm b a hab ha]

end Edges

/-! ## Matrices -/

/-- The digits of a matrix of side `n` that agrees on both sides of its diagonal, which is zero. -/
structure IsMatrix (cs : List Char) (n : Nat) : Prop where
  pos : 0 < n
  le : n ≤ maxPatternSize
  length : cs.length = n * n
  digits : ∀ c ∈ cs, c = '0' ∨ c = '1'
  symm : ∀ a < n, ∀ b < n, cs[a * n + b]? = cs[b * n + a]?
  diagonal : ∀ a < n, cs[a * n + a]? = some '0'

theorem isMatrix_toMatrix (p : Pattern) : IsMatrix p.toMatrix.toList p.size := by
  have hcell : ∀ a b, a < p.size → b < p.size →
      p.toMatrix.toList[a * p.size + b]? = some (digit (decide (p.Adjacent a b))) := fun a b ha hb => by
    rw [toList_toMatrix, List.getElem?_map, getElem?_cells_pattern ha hb, Option.map_some]
  refine ⟨p.size_pos, p.size_le, ?_, ?_, fun a ha b hb => ?_, fun a ha => ?_⟩
  · rw [toList_toMatrix, List.length_map, length_cells]
  · intro c hc
    rw [toList_toMatrix] at hc
    obtain ⟨b, -, rfl⟩ := List.mem_map.mp hc
    cases b
    · exact .inl rfl
    · exact .inr rfl
  · rw [hcell a b ha hb, hcell b a hb ha, decide_eq_decide.mpr adjacent_comm]
  · rw [hcell a a ha ha, decide_eq_false (not_adjacent_self a)]
    rfl

/-! ## Reading -/

section Reading

variable {text : String} {p : Pattern}

/-- The characters of a text that are no blanks. -/
def unblanked (text : String) : List Char := text.toList.filter fun c => !Text.isBlank c

theorem unblanked_toMatrix (p : Pattern) : unblanked p.toMatrix = p.toMatrix.toList := by
  rw [unblanked, List.filter_eq_self, toList_toMatrix]
  intro c hc
  obtain ⟨b, -, rfl⟩ := List.mem_map.mp hc
  rw [not_isBlank_digit]
  rfl

/-- A text is read in three steps: digits, side, edges. -/
theorem ofMatrix_eq_ok_iff : ofMatrix text = .ok p ↔ ∃ (cells : List Bool) (n : Nat) (edges : List (Nat × Nat)),
    unblanked text = cells.map digit ∧
    side? cells.length = some n ∧ matrixEdges cells.toArray n (List.range n) = .ok edges ∧
    ofEdges n edges = .ok p := by
  rw [ofMatrix, bind_eq_ok_iff]
  constructor
  · rintro ⟨cells, hcells, h⟩
    cases hside : side? cells.length with
    | none =>
        rw [hside] at h
        cases h
    | some n =>
        rw [hside] at h
        obtain ⟨edges, hedges, h⟩ := bind_eq_ok_iff.mp h
        exact ⟨cells, n, edges, cells_eq_ok_iff.mp hcells, hside, hedges, h⟩
  · rintro ⟨cells, n, edges, hcells, hside, hedges, h⟩
    refine ⟨cells, cells_eq_ok_iff.mpr hcells, ?_⟩
    rw [hside]
    exact bind_eq_ok_iff.mpr ⟨edges, hedges, h⟩

theorem getElem?_entry {cells : List Bool} {n a b : Nat} (hlength : cells.length = n * n) (ha : a < n) (hb : b < n) :
    cells[a * n + b]? = some (entry cells.toArray n a b) := by
  have hlt : a * n + b < cells.length := hlength ▸ cell_lt ha hb
  rw [entry, Array.getD_eq_getD_getElem?, List.getElem?_toArray, List.getElem?_eq_getElem hlt]
  rfl

/-- What is read is written with the digits that were read. -/
theorem toMatrix_of_ofMatrix (h : ofMatrix text = .ok p) : p.toMatrix.toList = unblanked text := by
  obtain ⟨cells, n, edges, hcells, hside, hedges, hp⟩ := ofMatrix_eq_ok_iff.mp h
  obtain ⟨⟨hpos, hle⟩, hlength⟩ := side?_eq_some_iff.mp hside
  obtain ⟨hgood, rfl⟩ := matrixEdges_eq_ok_iff.mp hedges
  obtain ⟨q, hq, hsize, hadjacent⟩ := ofEdges_edgesOf hpos hle hgood
  obtain rfl : q = p := Except.ok.inj (hq.symm.trans hp)
  subst hsize
  have hcell : ∀ a b, a < q.size → b < q.size → cells[a * q.size + b]? = some (decide (q.Adjacent a b)) := by
    intro a b ha hb
    have hentry : entry cells.toArray q.size a b = decide (q.Adjacent a b) :=
      Bool.eq_iff_iff.mpr ((hadjacent a b ha hb).symm.trans decide_eq_true_iff.symm)
    rw [getElem?_entry hlength.symm ha hb, hentry]
  rw [toList_toMatrix, hcells, eq_cells hlength.symm hcell]
  rfl

/-- All matrices are read. -/
theorem IsMatrix.exists_ofMatrix {n : Nat} (h : IsMatrix (unblanked text) n) : ∃ p, ofMatrix text = .ok p := by
  let cells : List Bool := (unblanked text).map fun c => decide (c = '1')
  have hcells : unblanked text = cells.map digit := by
    rw [List.map_map]
    refine (List.map_id _).symm.trans (List.map_congr_left fun c hc => ?_)
    rcases h.digits c hc with rfl | rfl <;> rfl
  have hlength : cells.length = n * n := (List.length_map _).trans h.length
  have hdigit : ∀ a b, a < n → b < n → (unblanked text)[a * n + b]? = some (digit (entry cells.toArray n a b)) :=
    fun a b ha hb => by rw [hcells, List.getElem?_map, getElem?_entry hlength ha hb, Option.map_some]
  have hgood : ∀ a ∈ List.range n, RowGood cells.toArray n a := fun a ha => by
    have ha : a < n := List.mem_range.mp ha
    refine ⟨?_, fun b hb => ?_⟩
    · have hdiagonal := h.diagonal a ha
      rw [hdigit a a ha ha] at hdiagonal
      exact digit_injective (Option.some.inj hdiagonal)
    · have hb : b < n := by
        rw [List.mem_range'_1] at hb
        omega
      have hsymm := h.symm a ha b hb
      rw [hdigit a b ha hb, hdigit b a hb ha] at hsymm
      exact digit_injective (Option.some.inj hsymm)
  obtain ⟨p, hp, -⟩ := ofEdges_edgesOf h.pos h.le hgood
  exact ⟨p, ofMatrix_eq_ok_iff.mpr ⟨cells, n, _, hcells, side?_eq_some_iff.mpr ⟨⟨h.pos, h.le⟩, hlength.symm⟩,
    matrixEdges_eq_ok_iff.mpr ⟨hgood, rfl⟩, hp⟩⟩

theorem ofMatrix_toMatrix (p : Pattern) : ofMatrix p.toMatrix = .ok p := by
  have hmatrix : IsMatrix (unblanked p.toMatrix) p.size := by
    rw [unblanked_toMatrix]
    exact p.isMatrix_toMatrix
  obtain ⟨q, hq⟩ := hmatrix.exists_ofMatrix
  have hdigits := toMatrix_of_ofMatrix hq
  rw [unblanked_toMatrix] at hdigits
  rw [hq, toMatrix_injective (String.toList_injective hdigits)]

end Reading

/-! ## There and back -/

/-- A text is read exactly if it is a matrix but for its blanks, and what is read is written as this matrix. A pattern
that is made of edges has these edges, in both directions, and none from a position to itself; no bit is set but in the
rows of its positions and for its positions, and what it is written as is read as the same pattern. -/
theorem ofMatrix_outcome :
    (∀ text, ((∃ p, ofMatrix text = .ok p) ↔ ∃ n, IsMatrix (unblanked text) n) ∧
      ∀ p, ofMatrix text = .ok p → p.toMatrix = String.ofList (unblanked text)) ∧
    ∀ size edges,
      ((∃ p, ofEdges size edges = .ok p) ↔
        (0 < size ∧ size ≤ maxPatternSize) ∧ ∀ e ∈ edges, e.1 < size ∧ e.2 < size ∧ e.1 ≠ e.2) ∧
      ∀ p, ofEdges size edges = .ok p →
        ofMatrix p.toMatrix = .ok p ∧
        (p.size = size ∧ ∀ a b, p.Adjacent a b ↔ (a, b) ∈ edges ∨ (b, a) ∈ edges) ∧
        ((∀ a b, p.Adjacent a b → p.Adjacent b a) ∧ ∀ a, ¬p.Adjacent a a) ∧
        ∀ a b, (p.row a).bits.testBit b = true → a < size ∧ b < size := by
  refine ⟨fun text => ⟨⟨?_, fun ⟨n, hn⟩ => hn.exists_ofMatrix⟩, fun p hp => ?_⟩,
    fun size edges => ⟨ofEdges_eq_ok_iff, fun p hp => ?_⟩⟩
  · rintro ⟨p, hp⟩
    exact ⟨p.size, toMatrix_of_ofMatrix hp ▸ p.isMatrix_toMatrix⟩
  · rw [← toMatrix_of_ofMatrix hp, String.ofList_toList]
  · obtain ⟨rfl, hadjacent⟩ := adjacent_of_ofEdges hp
    exact ⟨ofMatrix_toMatrix p, ⟨rfl, hadjacent⟩, ⟨fun _ _ h => h.symm, not_adjacent_self⟩,
      fun a b h => Adjacent.lt h⟩

/-- Three positions in a row, as a matrix with blanks of several kinds, and as a list of edges, one of which is there
twice. -/
theorem ofMatrix_outcome_path : ∃ p q, ofMatrix "\x09 0\u00a011\n\u3000100 100\n" = .ok p ∧
    p.toMatrix = "011100100" ∧ ofEdges 3 [(1, 0), (0, 2), (2, 0)] = .ok q ∧ ofMatrix q.toMatrix = .ok q ∧
      ∀ a b, q.Adjacent a b ↔ (a, b) ∈ [(1, 0), (0, 2), (2, 0)] ∨ (b, a) ∈ [(1, 0), (0, 2), (2, 0)] := by
  obtain ⟨htexts, hedges⟩ := ofMatrix_outcome
  have hdigits : unblanked "\x09 0\u00a011\n\u3000100 100\n" = ['0', '1', '1', '1', '0', '0', '1', '0', '0'] := by
    decide +kernel
  obtain ⟨hread, hwritten⟩ := htexts "\x09 0\u00a011\n\u3000100 100\n"
  have hmatrix : IsMatrix (unblanked "\x09 0\u00a011\n\u3000100 100\n") 3 := by
    rw [hdigits]
    exact ⟨by decide, by decide, rfl, by simp, by decide, by decide⟩
  obtain ⟨p, hp⟩ := hread.mpr ⟨3, hmatrix⟩
  obtain ⟨hmade, hback⟩ := hedges 3 [(1, 0), (0, 2), (2, 0)]
  obtain ⟨q, hq⟩ := hmade.mpr (by decide)
  obtain ⟨hround, ⟨-, hadjacent⟩, -⟩ := hback q hq
  refine ⟨p, q, hp, ?_, hq, hround, hadjacent⟩
  rw [hwritten p hp, hdigits]

end PatternCount.Pattern
