import Mathlib.Algebra.Order.BigOperators.Group.Finset
import Mathlib.Combinatorics.Enumerative.DoubleCounting
import Mathlib.Data.Finset.Sym
import PatternCount.Proofs.HostGraph.Offsets

/-!
# Graphs made of edges

A list of edges makes a graph exactly if all their ends are vertices; if not, the first edge that is not so is named
(`ofEdges_eq_error_iff`). In the graph two vertices are joined if they are `Listed`, in either order, and differ.

The rows count each edge at both ends (`sum_listed_eq`), however often and in whatever order it is listed. So the
number of row entries is twice the number of `distinctEdges`. The rows are sets, and nothing but what is listed decides
about their members, so that lists of the same edges make the same graph (`ofEdges_congr`).
-/

namespace PatternCount.HostGraph

/-! ## Listed edges -/

section Listed

variable {n : Nat} {edges edges' : List (Nat × Nat)} {u v : Nat}

/-- Two different vertices are listed as an edge, in either order. -/
def Listed (edges : List (Nat × Nat)) (u v : Nat) : Prop := u ≠ v ∧ ((u, v) ∈ edges ∨ (v, u) ∈ edges)

instance (edges : List (Nat × Nat)) (u v : Nat) : Decidable (Listed edges u v) :=
  inferInstanceAs (Decidable (u ≠ v ∧ ((u, v) ∈ edges ∨ (v, u) ∈ edges)))

/-- The listed edges that are no loops, each of them once. -/
def distinctEdges (edges : List (Nat × Nat)) : Finset (Sym2 Nat) :=
  (edges.map fun e => s(e.1, e.2)).toFinset.filter fun e => ¬ e.IsDiag

/-- Both lists have the same edges, but for their order, the order of their ends and repetitions. -/
def SameEdges (edges edges' : List (Nat × Nat)) : Prop :=
  ∀ u v, (u, v) ∈ edges' ∨ (v, u) ∈ edges' ↔ (u, v) ∈ edges ∨ (v, u) ∈ edges

theorem Listed.symm (h : Listed edges u v) : Listed edges v u := ⟨h.1.symm, h.2.symm⟩

theorem mem_distinctEdges : s(u, v) ∈ distinctEdges edges ↔ Listed edges u v := by
  simp only [distinctEdges, Finset.mem_filter, List.mem_toFinset, List.mem_map, Prod.exists, Sym2.eq_iff,
    Sym2.mk_isDiag_iff]
  constructor
  · rintro ⟨⟨a, b, hab, ⟨rfl, rfl⟩ | ⟨rfl, rfl⟩⟩, hne⟩
    · exact ⟨hne, .inl hab⟩
    · exact ⟨hne, .inr hab⟩
  · rintro ⟨hne, h | h⟩
    · exact ⟨⟨u, v, h, .inl ⟨rfl, rfl⟩⟩, hne⟩
    · exact ⟨⟨v, u, h, .inr ⟨rfl, rfl⟩⟩, hne⟩

section

variable (hedges : ∀ e ∈ edges, e.1 < n ∧ e.2 < n)
include hedges

theorem Listed.lt (h : Listed edges u v) : u < n ∧ v < n := by
  rcases h.2 with h | h
  · exact hedges _ h
  · exact (hedges _ h).symm

/-- The edges at a vertex are as many as the vertices that it is joined to. -/
theorem card_edgesAt (u : Nat) :
    ((distinctEdges edges).bipartiteAbove (fun u e => u ∈ e) u).card
      = ((Finset.range n).filter (Listed edges u)).card := by
  rw [← Finset.card_image_of_injective _ fun v w (h : s(u, v) = s(u, w)) => Sym2.congr_right.mp h]
  congr 1
  ext e
  simp only [Finset.bipartiteAbove, Finset.mem_filter, Finset.mem_image, Finset.mem_range]
  constructor
  · rintro ⟨he, v, rfl⟩
    have h := mem_distinctEdges.mp he
    exact ⟨v, ⟨(h.lt hedges).2, h⟩, rfl⟩
  · rintro ⟨v, ⟨-, h⟩, rfl⟩
    exact ⟨mem_distinctEdges.mpr h, Sym2.mem_mk_left u v⟩

theorem card_ends {e : Sym2 Nat} (he : e ∈ distinctEdges edges) :
    ((Finset.range n).bipartiteBelow (fun u e => u ∈ e) e).card = 2 := by
  induction e using Sym2.ind with
  | _ u v =>
      have h := mem_distinctEdges.mp he
      have hlt := h.lt hedges
      have hends : (Finset.range n).bipartiteBelow (fun u e => u ∈ e) s(u, v) = {u, v} := by
        ext w
        simp only [Finset.bipartiteBelow, Finset.mem_filter, Finset.mem_range, Sym2.mem_iff, Finset.mem_insert,
          Finset.mem_singleton]
        constructor
        · exact fun hw => hw.2
        · rintro (rfl | rfl)
          · exact ⟨hlt.1, .inl rfl⟩
          · exact ⟨hlt.2, .inr rfl⟩
      rw [hends, Finset.card_pair h.1]

/-- Over all vertices, the vertices that each is joined to are twice as many as there are edges. -/
theorem sum_listed_eq :
    ∑ u ∈ Finset.range n, ((Finset.range n).filter (Listed edges u)).card = 2 * (distinctEdges edges).card := by
  calc ∑ u ∈ Finset.range n, ((Finset.range n).filter (Listed edges u)).card
      = ∑ u ∈ Finset.range n, ((distinctEdges edges).bipartiteAbove (fun u e => u ∈ e) u).card :=
        Finset.sum_congr rfl fun u _ => (card_edgesAt hedges u).symm
    _ = ∑ e ∈ distinctEdges edges, ((Finset.range n).bipartiteBelow (fun u e => u ∈ e) e).card :=
        Finset.sum_card_bipartiteAbove_eq_sum_card_bipartiteBelow _
    _ = (distinctEdges edges).card * 2 := Finset.sum_const_nat fun e he => card_ends hedges he
    _ = 2 * (distinctEdges edges).card := Nat.mul_comm _ _

end

end Listed

/-! ## Acceptance -/

section Acceptance

variable {n : Nat} {edges edges' : List (Nat × Nat)} {g : HostGraph} {f : Fault}

theorem addEdge_eq_error {rows : Array (Array Nat)} {u v : Nat} (h : ¬ (u < rows.size ∧ v < rows.size)) :
    addEdge rows (u, v) = .error (.endpointOutOfRange u v rows.size) := if_neg h

theorem exists_foldlM_addEdge : ∀ (edges : List (Nat × Nat)) (rows : Array (Array Nat)),
    (∀ e ∈ edges, e.1 < rows.size ∧ e.2 < rows.size) → ∃ rows', edges.foldlM addEdge rows = .ok rows'
  | [], rows, _ => ⟨rows, rfl⟩
  | (u, v) :: rest, rows, h => by
      obtain ⟨hlt, hrest⟩ := List.forall_mem_cons.mp h
      obtain ⟨rows₁, hadd⟩ : ∃ rows₁, addEdge rows (u, v) = .ok rows₁ := ⟨_, if_pos hlt⟩
      obtain ⟨-, hsize, -⟩ := addEdge_eq_ok hadd
      rw [List.foldlM_cons, hadd]
      exact exists_foldlM_addEdge rest rows₁ (hsize ▸ hrest)

theorem foldlM_addEdge_eq_error {u v : Nat} : ∀ (edges : List (Nat × Nat)) (rows : Array (Array Nat)),
    edges.find? (fun e => rows.size ≤ e.1 ∨ rows.size ≤ e.2) = some (u, v) →
      edges.foldlM addEdge rows = .error (.endpointOutOfRange u v rows.size)
  | [], _, h => by cases h
  | (a, b) :: rest, rows, h => by
      rw [List.foldlM_cons]
      by_cases hlt : a < rows.size ∧ b < rows.size
      · obtain ⟨rows₁, hadd⟩ : ∃ rows₁, addEdge rows (a, b) = .ok rows₁ := ⟨_, if_pos hlt⟩
        obtain ⟨-, hsize, -⟩ := addEdge_eq_ok hadd
        rw [List.find?_cons_of_neg (by simpa using hlt), ← hsize] at h
        rw [hadd, ← hsize]
        exact foldlM_addEdge_eq_error rest rows₁ h
      · rw [List.find?_cons_of_pos (by simp; omega)] at h
        obtain ⟨rfl, rfl⟩ := Prod.mk.inj (Option.some.inj h)
        rw [addEdge_eq_error hlt]
        rfl

variable (hn : n ≤ maxVertexCount)
include hn

theorem checkTable_rows : Word.checkTable n rowWidth = .ok () := by
  have hroom : n * rowWidth ≤ Word.maxBytes := Nat.le_trans (Nat.mul_le_mul_right rowWidth hn) (by decide)
  exact if_pos hroom

theorem exists_ofEdges (hedges : ∀ e ∈ edges, e.1 < n ∧ e.2 < n) : ∃ g, ofEdges n edges = .ok g := by
  obtain ⟨rows, hfold⟩ := exists_foldlM_addEdge edges (Array.replicate n #[])
    (by rw [Array.size_replicate]; exact hedges)
  obtain ⟨-, hsize, hmem⟩ := collected_eq_ok hfold
  have hsorted : (sortedRows rows).size = n := by rw [sortedRows, Array.size_map, hsize]
  have haccepted : Accepted (sortedRows rows) := by
    refine ⟨hsorted ▸ hn, fun row hrow => ?_⟩
    obtain ⟨x, hx⟩ := List.getElem?_of_mem hrow
    rw [Array.getElem?_toList] at hx
    have hrowAt : rowAt (sortedRows rows) x = row := by rw [rowAt, hx, Option.getD_some]
    refine ⟨?_, fun v hv => ?_⟩
    · rw [sortedRows, Array.getElem?_map] at hx
      obtain ⟨row', -, rfl⟩ := Option.map_eq_some_iff.mp hx
      exact (VertexSet.ofUnsorted row'.toList).ascending
    · rw [← hrowAt, Array.mem_toList_iff, mem_rowAt_sortedRows, hmem] at hv
      rw [hsorted]
      exact (Listed.lt hedges hv).2
  obtain ⟨g, hg⟩ := exists_ofAdjacency_iff.mpr haccepted
  refine ⟨g, ?_⟩
  rw [ofEdges, checkTable_rows hn]
  show (edges.foldlM addEdge (Array.replicate n #[]) >>= fun rows => ofAdjacency (sortedRows rows)) = .ok g
  rw [hfold]
  exact hg

theorem ofEdges_eq_error {u v : Nat} (h : edges.find? (fun e => n ≤ e.1 ∨ n ≤ e.2) = some (u, v)) :
    ofEdges n edges = .error (.endpointOutOfRange u v n) := by
  have hfold := foldlM_addEdge_eq_error edges (Array.replicate n #[]) (by rw [Array.size_replicate]; exact h)
  rw [Array.size_replicate] at hfold
  rw [ofEdges, checkTable_rows hn]
  show (edges.foldlM addEdge (Array.replicate n #[]) >>= fun rows => ofAdjacency (sortedRows rows)) = _
  rw [hfold]
  rfl

theorem exists_ofEdges_iff : (∃ g, ofEdges n edges = .ok g) ↔ ∀ e ∈ edges, e.1 < n ∧ e.2 < n := by
  constructor
  · rintro ⟨g, hg⟩
    obtain ⟨-, -, -, hedges, -⟩ := ofEdges_eq_ok hg
    exact hedges
  · exact exists_ofEdges hn

/-- A list of edges is refused because of the first that has an end that is no vertex. -/
theorem ofEdges_eq_error_iff : ofEdges n edges = .error f ↔
    ∃ u v, edges.find? (fun e => n ≤ e.1 ∨ n ≤ e.2) = some (u, v) ∧ f = .endpointOutOfRange u v n := by
  constructor
  · intro h
    cases hfind : edges.find? (fun e => n ≤ e.1 ∨ n ≤ e.2) with
    | none =>
        have hedges : ∀ e ∈ edges, e.1 < n ∧ e.2 < n := fun e he => by
          have hnot := List.find?_eq_none.mp hfind e he
          simp only [decide_eq_true_eq] at hnot
          omega
        obtain ⟨g, hg⟩ := exists_ofEdges hn hedges
        rw [hg] at h
        cases h
    | some e =>
        rw [ofEdges_eq_error hn hfind] at h
        exact ⟨e.1, e.2, rfl, (Except.error.inj h).symm⟩
  · rintro ⟨u, v, hfind, rfl⟩
    exact ofEdges_eq_error hn hfind

/-- Lists of the same edges make the same graph. -/
theorem ofEdges_congr (hsame : SameEdges edges edges') (hg : ofEdges n edges = .ok g) : ofEdges n edges' = .ok g := by
  obtain ⟨rows, hrows, hsize, hedges, hmem⟩ := ofEdges_eq_ok hg
  have hedges' : ∀ e ∈ edges', e.1 < n ∧ e.2 < n := fun e he => by
    rcases (hsame e.1 e.2).mp (.inl he) with h | h
    · exact hedges _ h
    · exact (hedges _ h).symm
  obtain ⟨g', hg'⟩ := exists_ofEdges hn hedges'
  obtain ⟨rows', hrows', hsize', -, hmem'⟩ := ofEdges_eq_ok hg'
  have hgood := (exists_ofAdjacency_iff.mp ⟨g, hrows⟩).2
  have hgood' := (exists_ofAdjacency_iff.mp ⟨g', hrows'⟩).2
  have heq : rows = rows' := by
    refine Array.ext (hsize.trans hsize'.symm) fun u hu hu' => Array.toList_inj.mp ?_
    refine (hgood _ (Array.getElem_mem_toList hu)).1.ext (hgood' _ (Array.getElem_mem_toList hu')).1 fun v => ?_
    have h : v ∈ rowAt rows u ↔ v ∈ rowAt rows' u := by rw [hmem, hmem', hsame]
    rwa [rowAt, rowAt, Array.getElem?_eq_getElem hu, Array.getElem?_eq_getElem hu', Option.getD_some,
      Option.getD_some, ← Array.mem_toList_iff, ← Array.mem_toList_iff] at h
  rw [hg', ← hrows', ← heq, hrows]

end Acceptance

/-! ## Reading the graph -/

/-- What can be read from a graph of `n` vertices that is made of edges. -/
structure MadeOfEdges (n : Nat) (edges : List (Nat × Nat)) (g : HostGraph) : Prop where
  vertexCount : g.vertexCount = n
  row : ∀ u < n, ∃ row, g.neighbors u = .ok row ∧ Ascending row.toList ∧ ∀ v, v ∈ row ↔ Listed edges u v
  hasEdge : ∀ u < n, ∀ v, g.hasEdge u v = .ok (decide (Listed edges u v))
  noRow : ∀ u ≥ n, ∀ v, g.hasEdge u v = .error (.vertexOutOfRange u)
  symm : ∀ u < n, ∀ v < n, g.hasEdge u v = g.hasEdge v u
  irrefl : ∀ u < n, g.hasEdge u u = .ok false
  entryCount : g.entryCount = 2 * (distinctEdges edges).card
  degrees : ∃ degrees, (List.range n).mapM g.degree = .ok degrees ∧ g.entryCount = degrees.sum ∧
    g.maxDegree = degrees.max?.getD 0

section Reading

variable {n : Nat} {edges : List (Nat × Nat)} {g : HostGraph}

theorem row_of_ofEdges (h : ofEdges n edges = .ok g) {u : Nat} (hu : u < n) :
    ∃ row, g.neighbors u = .ok row ∧ ∀ v, v ∈ row ↔ Listed edges u v := by
  obtain ⟨rows, hrows, rfl, -⟩ := ofEdges_eq_ok h
  obtain ⟨row, hrow, -⟩ := neighbors_of_ofAdjacency hrows hu
  exact ⟨row, hrow, fun v => (edge_iff_mem hrow).symm.trans (edge_ofEdges_iff h)⟩

theorem hasEdge_of_ofEdges (h : ofEdges n edges = .ok g) {u : Nat} (hu : u < n) (v : Nat) :
    g.hasEdge u v = .ok (decide (Listed edges u v)) := by
  obtain ⟨row, hrow, hmem⟩ := row_of_ofEdges h hu
  rw [HostGraph.hasEdge, hrow]
  refine congrArg Except.ok (Bool.eq_iff_iff.mpr ?_)
  rw [VertexSet.contains_iff, hmem, decide_eq_true_eq]

/-- The row of a vertex is as long as there are vertices that it is joined to. -/
theorem size_rowAt {rows : Array (Array Nat)} (h : Accepted rows) {u : Nat} (hu : u < rows.size)
    (hmem : ∀ v, v ∈ rowAt rows u ↔ Listed edges u v) :
    (rowAt rows u).size = ((Finset.range rows.size).filter (Listed edges u)).card := by
  have hrow : rowAt rows u = rows[u] := by rw [rowAt, Array.getElem?_eq_getElem hu, Option.getD_some]
  have hgood : GoodRow rows.size (rowAt rows u) := hrow ▸ h.2 _ (Array.getElem_mem_toList hu)
  rw [← Array.length_toList, ← List.toFinset_card_of_nodup hgood.1.nodup]
  congr 1
  ext v
  rw [List.mem_toFinset, Finset.mem_filter, Finset.mem_range, Array.mem_toList_iff, hmem]
  exact ⟨fun hv => ⟨hgood.2 v (Array.mem_toList_iff.mpr ((hmem v).mpr hv)), hv⟩, fun hv => hv.2⟩

theorem entryCount_of_ofEdges (h : ofEdges n edges = .ok g) : g.entryCount = 2 * (distinctEdges edges).card := by
  obtain ⟨rows, hrows, rfl, hedges, hmem⟩ := ofEdges_eq_ok h
  have haccepted := exists_ofAdjacency_iff.mp ⟨g, hrows⟩
  rw [(madeOf_of_ofAdjacency hrows).entryCount, ← map_rowAt_range rows, List.map_map]
  calc ((List.range rows.size).map (Array.size ∘ rowAt rows)).sum
      = ∑ u ∈ Finset.range rows.size, (rowAt rows u).size := rfl
    _ = ∑ u ∈ Finset.range rows.size, ((Finset.range rows.size).filter (Listed edges u)).card :=
        Finset.sum_congr rfl fun u hu => size_rowAt haccepted (Finset.mem_range.mp hu) (hmem u)
    _ = 2 * (distinctEdges edges).card := sum_listed_eq hedges

theorem madeOfEdges_of_ofEdges (h : ofEdges n edges = .ok g) : g.MadeOfEdges n edges where
  vertexCount := by
    obtain ⟨rows, hrows, rfl, -⟩ := ofEdges_eq_ok h
    exact vertexCount_of_ofAdjacency hrows
  row := fun u hu => by
    obtain ⟨row, hrow, hmem⟩ := row_of_ofEdges h hu
    exact ⟨row, hrow, row.ascending_toList, hmem⟩
  hasEdge := fun u hu v => hasEdge_of_ofEdges h hu v
  noRow := fun u hu v => by
    obtain ⟨rows, hrows, rfl, -⟩ := ofEdges_eq_ok h
    rw [HostGraph.hasEdge, neighbors_eq_error (vertexCount_of_ofAdjacency hrows ▸ hu)]
    rfl
  symm := fun u hu v hv => by
    rw [hasEdge_of_ofEdges h hu, hasEdge_of_ofEdges h hv]
    exact congrArg Except.ok (decide_eq_decide.mpr ⟨Listed.symm, Listed.symm⟩)
  irrefl := fun u hu => by
    rw [hasEdge_of_ofEdges h hu]
    exact congrArg Except.ok (decide_eq_false fun hloop => hloop.1 rfl)
  entryCount := entryCount_of_ofEdges h
  degrees := by
    obtain ⟨rows, hrows, rfl, -⟩ := ofEdges_eq_ok h
    have hmade := madeOf_of_ofAdjacency hrows
    refine ⟨_, ?_, hmade.entryCount, hmade.maxDegree⟩
    rw [← hmade.vertexCount]
    exact hmade.degrees

/-- Edges make a graph exactly if all their ends are vertices; if not, the first that is not so is named. In the graph
exactly the different vertices are joined that are listed, in either order, each edge counts at both of its ends, and
every list of the same edges makes the same graph. -/
theorem ofEdges_outcome (hn : n ≤ maxVertexCount) (edges : List (Nat × Nat)) :
    ((∃ g, ofEdges n edges = .ok g) ↔ ∀ e ∈ edges, e.1 < n ∧ e.2 < n) ∧
      (∀ f, ofEdges n edges = .error f ↔
        ∃ u v, edges.find? (fun e => n ≤ e.1 ∨ n ≤ e.2) = some (u, v) ∧ f = .endpointOutOfRange u v n) ∧
      ∀ g, ofEdges n edges = .ok g →
        g.MadeOfEdges n edges ∧ ∀ edges', SameEdges edges edges' → ofEdges n edges' = .ok g :=
  ⟨exists_ofEdges_iff hn, fun _ => ofEdges_eq_error_iff hn,
    fun _ hg => ⟨madeOfEdges_of_ofEdges hg, fun _ hsame => ofEdges_congr hn hsame hg⟩⟩

/-- An edge listed in both orders counts once and a loop not at all, and the list may as well be reversed. -/
theorem ofEdges_outcome_repeats : ∃ g, ofEdges 4 [(0, 1), (1, 0), (2, 2), (1, 2)] = .ok g ∧
    g.MadeOfEdges 4 [(0, 1), (1, 0), (2, 2), (1, 2)] ∧ g.entryCount = 4 ∧
    ofEdges 4 [(1, 2), (2, 2), (1, 0), (0, 1), (2, 1)] = .ok g ∧
    ofEdges 4 [(0, 1), (1, 4), (5, 0)] = .error (.endpointOutOfRange 1 4 4) := by
  have hn : 4 ≤ maxVertexCount := by decide
  obtain ⟨hmakes, -, hmade⟩ := ofEdges_outcome hn [(0, 1), (1, 0), (2, 2), (1, 2)]
  obtain ⟨g, hg⟩ := hmakes.mpr (by decide)
  obtain ⟨hedges, hcongr⟩ := hmade g hg
  refine ⟨g, hg, hedges, hedges.entryCount.trans (by decide), hcongr _ fun u v => ?_, ?_⟩
  · grind
  · exact ((ofEdges_outcome hn _).2.1 _).mpr ⟨1, 4, by decide, rfl⟩

end Reading

end PatternCount.HostGraph
