import PatternCount.Proofs.Outcome
import PatternCount.Proofs.Pattern.Connectivity

/-!
# The edges of patterns that are made

A pattern is made of an edgeless one by adding edges. What is added is what is listed: after `addEdges` two
positions are adjacent if they were before or are listed as an edge, in either order (`addEdges_eq_ok`). In
particular any two different positions of a clique are adjacent (`clique_eq_ok`).
-/

namespace PatternCount.Pattern

/-! ## Adding edges -/

theorem adjacent_link {p : Pattern} {a b x y : Nat} {ha : a < p.size} {hb : b < p.size} {hne : a ≠ b} :
    (p.link a b ha hb hne).Adjacent x y ↔ p.Adjacent x y ∨ (x = a ∧ y = b) ∨ (x = b ∧ y = a) := by
  show y ∈ rowOf (enter (enter p.rows a b) b a) x ↔ _
  rw [mem_rowOf_enter (Nat.lt_of_lt_of_le hb p.size_le), mem_rowOf_enter (Nat.lt_of_lt_of_le ha p.size_le),
    or_assoc]
  exact Iff.rfl

theorem not_adjacent_edgeless {size : Nat} {size_pos : 0 < size} {size_le : size ≤ maxPatternSize} (a b : Nat) :
    ¬(edgeless size size_pos size_le).Adjacent a b := by
  show b ∉ rowOf (Vector.replicate maxPatternSize .empty) a
  intro h
  simp only [rowOf, Vector.getElem?_replicate] at h
  split at h
  · exact PositionSet.not_mem_empty b h
  · exact PositionSet.not_mem_empty b h

/-- Edges between different positions are added, and no others. -/
theorem addEdges_eq_ok : ∀ {edges : List (Nat × Nat)} {p : Pattern},
    (∀ e ∈ edges, e.1 < p.size ∧ e.2 < p.size ∧ e.1 ≠ e.2) →
      ∃ q, p.addEdges edges = .ok q ∧ q.size = p.size ∧
        ∀ x y, q.Adjacent x y ↔ p.Adjacent x y ∨ (x, y) ∈ edges ∨ (y, x) ∈ edges
  | [], p, _ => ⟨p, rfl, rfl, fun x y => by simp⟩
  | (a, b) :: rest, p, h => by
      obtain ⟨⟨ha, hb, hne⟩, hrest⟩ := List.forall_mem_cons.mp h
      obtain ⟨q, hq, hsize, hadjacent⟩ := addEdges_eq_ok (p := p.link a b ha hb hne) hrest
      refine ⟨q, ?_, hsize, fun x y => ?_⟩
      · rw [addEdges, dif_pos ⟨ha, hb⟩, dif_neg hne]
        exact hq
      · rw [hadjacent, adjacent_link, List.mem_cons, List.mem_cons, Prod.mk.injEq, Prod.mk.injEq,
          and_comm (a := y = a)]
        tauto

/-- Only edges between different positions are added. -/
theorem edges_of_addEdges : ∀ {edges : List (Nat × Nat)} {p q : Pattern}, p.addEdges edges = .ok q →
    ∀ e ∈ edges, e.1 < p.size ∧ e.2 < p.size ∧ e.1 ≠ e.2
  | [], _, _, _ => nofun
  | (a, b) :: rest, p, q, h => by
      rw [addEdges] at h
      split at h
      · next hlt =>
          split at h
          · cases h
          · next hne =>
              have hrest := edges_of_addEdges h
              exact List.forall_mem_cons.mpr ⟨⟨hlt.1, hlt.2, hne⟩, hrest⟩
      · cases h

theorem ofSize_eq_ok {size : Nat} (hpos : 0 < size) (hle : size ≤ maxPatternSize) :
    ofSize size = .ok (edgeless size hpos hle) :=
  dif_pos ⟨hpos, hle⟩

theorem eq_edgeless_of_ofSize {size : Nat} {p : Pattern} (h : ofSize size = .ok p) :
    ∃ hpos hle, p = edgeless size hpos hle := by
  rw [ofSize] at h
  split at h
  · next hsize => exact ⟨hsize.1, hsize.2, (Except.ok.inj h).symm⟩
  · cases h

/-- A pattern is made of a list of edges exactly if it can have that size and they join different positions, and then
it has these edges, in whatever order and however often they are listed. -/
theorem ofEdges_eq_ok_iff {size : Nat} {edges : List (Nat × Nat)} :
    (∃ p, ofEdges size edges = .ok p) ↔
      (0 < size ∧ size ≤ maxPatternSize) ∧ ∀ e ∈ edges, e.1 < size ∧ e.2 < size ∧ e.1 ≠ e.2 := by
  constructor
  · rintro ⟨q, hq⟩
    obtain ⟨p, hp, hadd⟩ := bind_eq_ok_iff.mp hq
    obtain ⟨hpos, hle, rfl⟩ := eq_edgeless_of_ofSize hp
    exact ⟨⟨hpos, hle⟩, edges_of_addEdges hadd⟩
  · rintro ⟨⟨hpos, hle⟩, hedges⟩
    obtain ⟨q, hq, -⟩ := addEdges_eq_ok (p := edgeless size hpos hle) hedges
    exact ⟨q, bind_eq_ok_iff.mpr ⟨_, ofSize_eq_ok hpos hle, hq⟩⟩

theorem adjacent_of_ofEdges {size : Nat} {edges : List (Nat × Nat)} {p : Pattern} (h : ofEdges size edges = .ok p) :
    p.size = size ∧ ∀ a b, p.Adjacent a b ↔ (a, b) ∈ edges ∨ (b, a) ∈ edges := by
  obtain ⟨p₀, hp₀, hadd⟩ := bind_eq_ok_iff.mp h
  obtain ⟨hpos, hle, rfl⟩ := eq_edgeless_of_ofSize hp₀
  obtain ⟨q, hq, hsize, hadjacent⟩ := addEdges_eq_ok (edges_of_addEdges hadd)
  obtain rfl := Except.ok.inj (hq.symm.trans hadd)
  exact ⟨hsize, fun a b => (hadjacent a b).trans (or_iff_right (not_adjacent_edgeless a b))⟩

/-! ## Cliques -/

theorem mem_cliqueEdges {size a b : Nat} : (a, b) ∈ cliqueEdges size ↔ a < b ∧ b < size := by
  simp only [cliqueEdges, List.mem_flatMap, List.mem_range, List.mem_map, List.mem_range'_1, Prod.mk.injEq]
  constructor
  · rintro ⟨c, hc, d, hd, rfl, rfl⟩
    omega
  · rintro ⟨hab, hb⟩
    exact ⟨a, by omega, b, by omega, rfl, rfl⟩

theorem checkRoom_eq_ok {size : Nat} (hle : size ≤ maxPatternSize) : checkRoom size = .ok () := by
  have hroom : (size - 1) * edgeWidth ≤ Word.maxBytes :=
    Nat.le_trans (Nat.mul_le_mul_right edgeWidth (Nat.le_trans (Nat.sub_le size 1) hle)) (by decide)
  rw [checkRoom, Word.checkTable, if_pos hroom]
  rfl

/-- Any two different positions are adjacent. -/
def Complete (p : Pattern) : Prop := ∀ a b, p.Adjacent a b ↔ a < p.size ∧ b < p.size ∧ a ≠ b

theorem Complete.connected {p : Pattern} (h : p.Complete) : p.Connected := fun a b ha hb => by
  by_cases hab : a = b
  · exact hab ▸ .refl
  · exact .single ((h a b).mpr ⟨ha, hb, hab⟩)

/-- A clique is made for every size that a pattern can have. -/
theorem clique_eq_ok {size : Nat} (hpos : 0 < size) (hle : size ≤ maxPatternSize) :
    ∃ p, clique size = .ok p ∧ p.size = size ∧ p.Complete := by
  have hedges : ∀ e ∈ cliqueEdges size, e.1 < size ∧ e.2 < size ∧ e.1 ≠ e.2 := fun e he => by
    obtain ⟨hlt, hsize⟩ := mem_cliqueEdges.mp (show (e.1, e.2) ∈ cliqueEdges size from he)
    exact ⟨Nat.lt_trans hlt hsize, hsize, Nat.ne_of_lt hlt⟩
  obtain ⟨p, hp, hsize, hadjacent⟩ := addEdges_eq_ok (p := edgeless size hpos hle) hedges
  refine ⟨p, ?_, hsize, fun a b => ?_⟩
  · rw [clique, checkRoom_eq_ok hle, ofSize_eq_ok hpos hle]
    exact hp
  · rw [hadjacent, or_iff_right (not_adjacent_edgeless a b), mem_cliqueEdges, mem_cliqueEdges,
      show p.size = size from hsize]
    omega

end PatternCount.Pattern
