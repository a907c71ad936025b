import PatternCount.Pattern.Matrix
import PatternCount.Proofs.Outcome
import PatternCount.Proofs.Pattern.Edges

/-!
# The digits of a pattern

A pattern is written as digits, one for each cell of its matrix (`toList_toMatrix`), and is told from all others by
them (`toMatrix_injective`): the digits have the size as the side of their square, and say of all its pairs whether
they are adjacent; no others are.

Cell `(a, b)` of a matrix of side `n` is the one at `a * n + b`, and `flatMap_range_map` is where this is used: a list
of `m * n` cells is the list of its `m` rows of `n` cells.
-/

namespace PatternCount.Pattern

/-! ## Cells -/

section Cells

variable {α : Type} {m n a b : Nat} {f : Nat → Nat → α}

theorem cell_lt (ha : a < m) (hb : b < n) : a * n + b < m * n := by
  calc a * n + b < a * n + n := Nat.add_lt_add_left hb _
    _ = (a + 1) * n := (Nat.succ_mul a n).symm
    _ ≤ m * n := Nat.mul_le_mul_right n ha

/-- A cell is found again from where it stands. -/
theorem cell_div_mod (hb : b < n) : (a * n + b) / n = a ∧ (a * n + b) % n = b := by
  rw [Nat.mul_comm a n]
  constructor
  · rw [Nat.mul_add_div (Nat.zero_lt_of_lt hb), Nat.div_eq_of_lt hb, Nat.add_zero]
  · rw [Nat.mul_add_mod, Nat.mod_eq_of_lt hb]

theorem range_mul (m n : Nat) :
    List.range (m * n) = (List.range m).flatMap fun a => (List.range n).map fun b => a * n + b := by
  induction m with
  | zero => rw [Nat.zero_mul, List.range_zero, List.flatMap_nil]
  | succ m ih => rw [Nat.succ_mul, List.range_add, ih, List.range_succ, List.flatMap_append, List.flatMap_singleton]

/-- Rows of equal length, cell by cell. -/
theorem flatMap_range_map (f : Nat → Nat → α) (m n : Nat) :
    ((List.range m).flatMap fun a => (List.range n).map (f a))
      = (List.range (m * n)).map fun i => f (i / n) (i % n) := by
  rw [range_mul, List.map_flatMap]
  refine List.flatMap_congr fun a _ => ?_
  rw [List.map_map]
  refine List.map_congr_left fun b hb => ?_
  obtain ⟨hdiv, hmod⟩ := @cell_div_mod n a b (List.mem_range.mp hb)
  show f a b = f ((a * n + b) / n) ((a * n + b) % n)
  rw [hdiv, hmod]

theorem getElem?_cells (ha : a < m) (hb : b < n) :
    ((List.range m).flatMap fun a => (List.range n).map (f a))[a * n + b]? = some (f a b) := by
  obtain ⟨hdiv, hmod⟩ := @cell_div_mod n a b hb
  rw [flatMap_range_map, List.getElem?_map, List.getElem?_range (cell_lt ha hb), Option.map_some, hdiv, hmod]

/-- A list is that of its rows. -/
theorem eq_cells {cells : List α} (hlength : cells.length = m * n)
    (h : ∀ a b, a < m → b < n → cells[a * n + b]? = some (f a b)) :
    cells = (List.range m).flatMap fun a => (List.range n).map (f a) := by
  rw [flatMap_range_map]
  refine List.ext_getElem? fun i => ?_
  rw [List.getElem?_map]
  by_cases hi : i < m * n
  · have hn : 0 < n := Nat.pos_of_mul_pos_left (Nat.zero_lt_of_lt hi)
    have hcell := h (i / n) (i % n) (Nat.div_lt_of_lt_mul (Nat.mul_comm m n ▸ hi)) (Nat.mod_lt i hn)
    rw [Nat.div_add_mod'] at hcell
    rw [hcell, List.getElem?_range hi]
    rfl
  · rw [List.getElem?_eq_none (by omega), List.getElem?_eq_none (by rw [List.length_range]; omega)]
    rfl

end Cells

/-! ## Digits -/

def digit (b : Bool) : Char := if b then '1' else '0'

theorem cell?_eq_ok_iff {c : Char} {b : Bool} : cell? c = .ok b ↔ c = digit b := by
  unfold cell?
  by_cases h0 : c = '0'
  · subst h0
    cases b <;> simp [digit]
  · by_cases h1 : c = '1'
    · subst h1
      cases b <;> simp [digit]
    · rw [if_neg h0, if_neg h1]
      cases b <;> simp [digit, h0, h1]

theorem digit_injective : Function.Injective digit := by
  intro b b' h
  cases b <;> cases b' <;> first | rfl | cases h

theorem not_isBlank_digit (b : Bool) : Text.isBlank (digit b) = false := by
  cases b <;> decide

theorem cells_eq_ok_iff {cs : List Char} {cells : List Bool} :
    cs.mapM cell? = .ok cells ↔ cs = cells.map digit := by
  induction cs generalizing cells with
  | nil =>
      cases cells with
      | nil => exact ⟨fun _ => rfl, fun _ => rfl⟩
      | cons b cells => exact ⟨nofun, nofun⟩
  | cons c cs ih =>
      rw [List.mapM_cons, bind_eq_ok_iff]
      constructor
      · rintro ⟨b, hb, h⟩
        obtain ⟨rest, hrest, h⟩ := bind_eq_ok_iff.mp h
        obtain rfl := Except.ok.inj h
        rw [List.map_cons, ← ih.mp hrest, ← cell?_eq_ok_iff.mp hb]
      · intro h
        cases cells with
        | nil => cases h
        | cons b cells =>
            obtain ⟨hb, hrest⟩ := List.cons.inj h
            exact ⟨b, cell?_eq_ok_iff.mpr hb, bind_eq_ok_iff.mpr ⟨cells, ih.mpr hrest, rfl⟩⟩

/-! ## Patterns by their digits -/

/-- Whether the positions are adjacent, row after row. -/
def cells (p : Pattern) : List Bool :=
  (List.range p.size).flatMap fun a => (List.range p.size).map fun b => decide (p.Adjacent a b)

theorem toList_toMatrix (p : Pattern) : p.toMatrix.toList = p.cells.map digit := by
  rw [toMatrix, String.toList_ofList, cells, List.map_flatMap]
  refine List.flatMap_congr fun a _ => ?_
  rw [List.map_map]
  refine List.map_congr_left fun b _ => ?_
  by_cases h : p.Adjacent a b <;> simp [digit, h]

theorem length_cells (p : Pattern) : p.cells.length = p.size * p.size := by
  rw [cells, flatMap_range_map, List.length_map, List.length_range]

theorem getElem?_cells_pattern {p : Pattern} {a b : Nat} (ha : a < p.size) (hb : b < p.size) :
    p.cells[a * p.size + b]? = some (decide (p.Adjacent a b)) := getElem?_cells ha hb

theorem Adjacent.lt {p : Pattern} {a b : Nat} (h : p.Adjacent a b) : a < p.size ∧ b < p.size :=
  ⟨h.symm.lt_right, h.lt_right⟩

theorem adjacent_comm {p : Pattern} {a b : Nat} : p.Adjacent a b ↔ p.Adjacent b a := ⟨.symm, .symm⟩

/-- A pattern is known by its size and by which positions are adjacent, in all of its rows and with all of their
bits. -/
theorem eq_of_adjacent {p q : Pattern} (hsize : p.size = q.size) (h : ∀ a b, p.Adjacent a b ↔ q.Adjacent a b) :
    p = q := by
  have hrows : p.rows = q.rows := by
    ext i hi : 1
    have hrow : ∀ r : Pattern, r.row i = r.rows[i] := fun r => by
      rw [row, rowOf, Vector.getElem?_eq_getElem hi]
      rfl
    have hbits : p.rows[i].bits = q.rows[i].bits := by
      refine Nat.eq_of_testBit_eq fun b => ?_
      rw [Bool.eq_iff_iff]
      have hmem := h i b
      unfold Adjacent at hmem
      rwa [hrow p, hrow q] at hmem
    exact congrArg PositionSet.mk hbits
  cases p
  cases q
  cases hsize
  cases hrows
  rfl

theorem toMatrix_injective {p q : Pattern} (h : p.toMatrix = q.toMatrix) : p = q := by
  have hcells : p.cells = q.cells := by
    have hdigits := congrArg String.toList h
    rw [toList_toMatrix, toList_toMatrix] at hdigits
    exact (List.map_injective_iff.mpr digit_injective) hdigits
  have hsize : p.size = q.size := by
    have hlength := congrArg List.length hcells
    rw [length_cells, length_cells] at hlength
    exact Nat.mul_self_inj.mp hlength
  refine eq_of_adjacent hsize fun a b => ?_
  by_cases hlt : a < p.size ∧ b < p.size
  · have hcell := getElem?_cells_pattern hlt.1 hlt.2
    rw [hcells, hsize, getElem?_cells_pattern (hsize ▸ hlt.1) (hsize ▸ hlt.2), Option.some.injEq,
      decide_eq_decide] at hcell
    exact hcell.symm
  · exact ⟨fun hadj => absurd hadj.lt hlt, fun hadj => absurd (hsize ▸ hadj.lt) hlt⟩

end PatternCount.Pattern
