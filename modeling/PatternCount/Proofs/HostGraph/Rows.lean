import Mathlib.Algebra.GroupWithZero.Nat
import PatternCount.HostGraph
import PatternCount.Proofs.Outcome
import PatternCount.Proofs.VertexSet.Membership

/-!
# The rows of a host graph

`g.Edge u v` says that `v` is in the row of `u`, and `g.Closed` that every vertex has a row, all of whose
members are vertices again. Two facts are shown of the graphs that can be made:

- **from rows** (`closed_of_ofAdjacency`, `neighbors_of_ofAdjacency`): a graph made of rows is closed, and its
  rows are the ones it was made of. The offsets are sums of row lengths, so the row of a vertex is the slice
  between two of them, which is always within the entries (`slice_rowOffsets`).
- **from edges** (`edge_ofEdges_iff`): in a graph made of undirected edges, two vertices are joined exactly if
  they differ and are listed as an edge, in either order.
-/

namespace PatternCount.HostGraph

def Edge (g : HostGraph) (u v : Nat) : Prop := ∃ row, g.neighbors u = .ok row ∧ v ∈ row

/-- Every vertex has a row, whose members are vertices. -/
def Closed (g : HostGraph) : Prop :=
  ∀ u < g.vertexCount, ∃ row, g.neighbors u = .ok row ∧ ∀ v ∈ row, v < g.vertexCount

/-- The row of a vertex, empty if there is no such vertex. -/
def neighborhood (g : HostGraph) (v : Nat) : VertexSet := (g.neighbors v).toOption.getD .empty

theorem Closed.neighbors_eq {g : HostGraph} (hg : g.Closed) {v : Nat} (hv : v < g.vertexCount) :
    g.neighbors v = .ok (g.neighborhood v) := by
  obtain ⟨row, hrow, -⟩ := hg v hv
  rw [neighborhood, hrow]
  rfl

theorem edge_iff_mem {g : HostGraph} {u v : Nat} {row : VertexSet} (h : g.neighbors u = .ok row) :
    g.Edge u v ↔ v ∈ row := by
  constructor
  · rintro ⟨row', h', hv⟩
    obtain rfl := Except.ok.inj (h.symm.trans h')
    exact hv
  · exact fun hv => ⟨row, h, hv⟩

@[simp] theorem mem_vertices {g : HostGraph} {v : Nat} : v ∈ g.vertices ↔ v < g.vertexCount :=
  VertexSet.mem_upTo

/-! ## Graphs made of rows -/

theorem length_rowOffsets (start : Nat) (rows : List (Array Nat)) :
    (rowOffsets start rows).length = rows.length + 1 := by
  induction rows generalizing start with
  | nil => rfl
  | cons row rest ih => rw [rowOffsets, List.length_cons, ih, List.length_cons]

/-- The offset of a row is the sum of the lengths of the rows before it. -/
theorem getElem?_rowOffsets : ∀ (start : Nat) (rows : List (Array Nat)) {v : Nat}, v ≤ rows.length →
    (rowOffsets start rows)[v]? = some (start + ((rows.take v).map Array.size).sum)
  | start, [], v, hv => by
      obtain rfl : v = 0 := Nat.le_zero.mp hv
      rfl
  | start, row :: rest, 0, _ => rfl
  | start, row :: rest, v + 1, hv => by
      rw [rowOffsets, List.getElem?_cons_succ, getElem?_rowOffsets _ rest (Nat.le_of_succ_le_succ hv),
        List.take_succ_cons, List.map_cons, List.sum_cons, Nat.add_assoc]

/-- Between the sums of the lengths before and up to a row lies that row. -/
theorem extract_flatten : ∀ (rows : List (Array Nat)) {v : Nat} {row : Array Nat}, rows[v]? = some row →
    ((rows.map Array.toList).flatten.drop ((rows.take v).map Array.size).sum).take row.size = row.toList
  | [], _, _, h => by cases h
  | first :: rest, 0, row, h => by
      obtain rfl := Option.some.inj h
      simp [← Array.length_toList]
  | first :: rest, v + 1, row, h => by
      have hrest := extract_flatten rest h
      have hsize : first.size = first.toList.length := Array.length_toList.symm
      rw [List.take_succ_cons, List.map_cons, List.sum_cons, List.map_cons, List.flatten_cons,
        ← List.drop_drop, hsize, List.drop_left]
      exact hrest

/-- The first rows are no longer together than all of them. -/
theorem sum_take_le (rows : List (Array Nat)) (v : Nat) :
    ((rows.take v).map Array.size).sum ≤ (rows.map Array.size).sum := by
  calc ((rows.take v).map Array.size).sum
      ≤ ((rows.take v).map Array.size).sum + ((rows.drop v).map Array.size).sum := Nat.le_add_right _ _
    _ = (rows.map Array.size).sum := by rw [← List.sum_append, ← List.map_append, List.take_append_drop]

/-- The row at `v` is the slice from the offset of `v` to that of `v + 1`, which is within the entries. -/
theorem slice_rowOffsets {rows : List (Array Nat)} {offsets entries : Array Nat}
    (hoff : offsets = (rowOffsets 0 rows).toArray)
    (hent : entries.toList = (rows.map Array.toList).flatten) {v : Nat} {row : Array Nat}
    (h : rows[v]? = some row) :
    ∃ start stop, offsets[v]? = some start ∧ offsets[v + 1]? = some stop ∧ stop = start + row.size
      ∧ Fault.slice entries start stop = .ok row := by
  obtain ⟨hv, hget⟩ := List.getElem?_eq_some_iff.mp h
  have hstop : ((rows.take (v + 1)).map Array.size).sum = ((rows.take v).map Array.size).sum + row.size := by
    rw [List.take_succ_eq_append_getElem hv, List.map_append, List.sum_append, hget]
    simp
  have hsize : entries.size = (rows.map Array.size).sum := by
    rw [← Array.length_toList, hent, List.length_flatten, List.map_map]
    rfl
  refine ⟨((rows.take v).map Array.size).sum, ((rows.take v).map Array.size).sum + row.size, ?_, ?_, rfl,
    Fault.slice_eq_ok_iff.mpr ⟨Nat.le_add_right _ _, ?_, ?_⟩⟩
  · rw [hoff, List.getElem?_toArray, getElem?_rowOffsets _ _ (Nat.le_of_lt hv), Nat.zero_add]
  · rw [hoff, List.getElem?_toArray, getElem?_rowOffsets _ _ hv, Nat.zero_add, hstop]
  · rw [hsize, ← hstop]
    exact sum_take_le rows (v + 1)
  · apply Array.toList_inj.mp
    rw [Array.toList_extract, hent, List.extract_eq_take_drop, Nat.add_sub_cancel_left]
    exact extract_flatten _ h

theorem checkRow_eq_ok_iff {count u : Nat} {row : Array Nat} :
    checkRow count row u = .ok () ↔ Ascending row.toList ∧ ∀ v ∈ row.toList, v < count := by
  unfold checkRow
  constructor
  · intro h
    split at h
    · next hasc =>
        split at h
        · cases h
        · next hnone =>
            refine ⟨hasc, ?_⟩
            intro v hv
            simpa using List.find?_eq_none.mp hnone v hv
    · cases h
  · rintro ⟨hasc, hlt⟩
    rw [if_pos hasc, List.find?_eq_none.mpr fun v hv => by simpa using hlt v hv]

theorem checkRows_eq_ok_iff {count : Nat} {rows : List (Array Nat)} {u : Nat} :
    checkRows count rows u = .ok ()
      ↔ ∀ row ∈ rows, Ascending row.toList ∧ ∀ v ∈ row.toList, v < count := by
  induction rows generalizing u with
  | nil => simp [checkRows]
  | cons row rest ih => rw [checkRows, check_bind_eq_ok_iff, checkRow_eq_ok_iff, ih, List.forall_mem_cons]

theorem ofAdjacency_eq_ok_iff {rows : Array (Array Nat)} {g : HostGraph} : ofAdjacency rows = .ok g ↔
    rows.size ≤ maxVertexCount
      ∧ (∀ row ∈ rows.toList, Ascending row.toList ∧ ∀ v ∈ row.toList, v < rows.size)
      ∧ g = ⟨(rowOffsets 0 rows.toList).toArray, rows.flatten,
          rows.toList.foldl (fun most row => max most row.size) 0⟩ := by
  unfold ofAdjacency
  by_cases hsize : maxVertexCount < rows.size
  · rw [if_pos hsize]
    exact iff_of_false nofun fun h => Nat.not_lt_of_le h.1 hsize
  · rw [if_neg hsize]
    refine check_bind_eq_ok_iff.trans ?_
    rw [checkRows_eq_ok_iff]
    refine ⟨fun h => ⟨Nat.le_of_not_lt hsize, h.1, (Except.ok.inj h.2).symm⟩, fun h => ⟨h.2.1, ?_⟩⟩
    rw [h.2.2]
    rfl

theorem ofAdjacency_eq_ok {rows : Array (Array Nat)} {g : HostGraph} (h : ofAdjacency rows = .ok g) :
    rows.size ≤ maxVertexCount
      ∧ (∀ row ∈ rows.toList, Ascending row.toList ∧ ∀ v ∈ row.toList, v < rows.size)
      ∧ g.offsets = (rowOffsets 0 rows.toList).toArray ∧ g.entries = rows.flatten := by
  obtain ⟨hsize, hrows, rfl⟩ := ofAdjacency_eq_ok_iff.mp h
  exact ⟨hsize, hrows, rfl, rfl⟩

theorem vertexCount_of_ofAdjacency {rows : Array (Array Nat)} {g : HostGraph}
    (h : ofAdjacency rows = .ok g) : g.vertexCount = rows.size := by
  obtain ⟨-, -, hoff, -⟩ := ofAdjacency_eq_ok h
  rw [vertexCount, hoff, List.size_toArray, length_rowOffsets, Nat.add_sub_cancel, Array.length_toList]

theorem vertexCount_lt_of_ofAdjacency {rows : Array (Array Nat)} {g : HostGraph}
    (h : ofAdjacency rows = .ok g) : g.vertexCount < 2 ^ 32 := by
  rw [vertexCount_of_ofAdjacency h]
  exact Nat.lt_of_le_of_lt (ofAdjacency_eq_ok h).1 (by decide)

theorem rowBounds_of_ofAdjacency {rows : Array (Array Nat)} {g : HostGraph}
    (h : ofAdjacency rows = .ok g) {v : Nat} (hv : v < rows.size) :
    ∃ start stop, g.rowBounds v = .ok (start, stop) ∧ stop = start + rows[v].size
      ∧ Fault.slice g.entries start stop = .ok rows[v] := by
  obtain ⟨-, -, hoff, hent⟩ := ofAdjacency_eq_ok h
  have hlist : rows.toList[v]? = some rows[v] := by
    rw [Array.getElem?_toList, Array.getElem?_eq_getElem hv]
  have hentries : g.entries.toList = (rows.toList.map Array.toList).flatten := by
    rw [hent, Array.toList_flatten]
  obtain ⟨start, stop, hstart, hstop, hlength, hrow⟩ := slice_rowOffsets hoff hentries hlist
  obtain ⟨_, rfl⟩ := Array.getElem?_eq_some_iff.mp hstart
  obtain ⟨hlt, rfl⟩ := Array.getElem?_eq_some_iff.mp hstop
  exact ⟨_, _, dif_pos hlt, hlength, hrow⟩

theorem rowBounds_eq_error {g : HostGraph} {v : Nat} (hv : g.vertexCount ≤ v) :
    g.rowBounds v = .error (.vertexOutOfRange v) := by
  rw [vertexCount] at hv
  exact dif_neg (by omega)

theorem neighbors_of_ofAdjacency {rows : Array (Array Nat)} {g : HostGraph}
    (h : ofAdjacency rows = .ok g) {v : Nat} (hv : v < rows.size) :
    ∃ row, g.neighbors v = .ok row ∧ row.members = rows[v] := by
  obtain ⟨-, hrows, -⟩ := ofAdjacency_eq_ok h
  obtain ⟨start, stop, hbounds, -, hrow⟩ := rowBounds_of_ofAdjacency h hv
  refine ⟨⟨rows[v], (hrows _ (Array.getElem_mem_toList hv)).1⟩, ?_, rfl⟩
  rw [neighbors, hbounds]
  show (Fault.slice g.entries start stop >>= VertexSet.ofArray) = _
  rw [hrow]
  exact VertexSet.ofArray_eq_ok_iff.mpr rfl

theorem neighbors_eq_error {g : HostGraph} {v : Nat} (hv : g.vertexCount ≤ v) :
    g.neighbors v = .error (.vertexOutOfRange v) := by
  rw [neighbors, rowBounds_eq_error hv]
  rfl

theorem closed_of_ofAdjacency {rows : Array (Array Nat)} {g : HostGraph} (h : ofAdjacency rows = .ok g) :
    g.Closed := by
  intro u hu
  rw [vertexCount_of_ofAdjacency h] at hu ⊢
  obtain ⟨row, hrow, hmem⟩ := neighbors_of_ofAdjacency h hu
  obtain ⟨-, hrows, -, -⟩ := ofAdjacency_eq_ok h
  refine ⟨row, hrow, ?_⟩
  intro v hv
  rw [← VertexSet.mem_members, hmem] at hv
  exact (hrows rows[u] (by simp)).2 v (Array.mem_toList_iff.mpr hv)

/-- The row of `u` among those listed, empty if there is none. -/
def rowAt (rows : Array (Array Nat)) (u : Nat) : Array Nat := rows[u]?.getD #[]

theorem edge_ofAdjacency_iff {rows : Array (Array Nat)} {g : HostGraph} (h : ofAdjacency rows = .ok g)
    {u v : Nat} : g.Edge u v ↔ v ∈ rowAt rows u := by
  by_cases hu : u < rows.size
  · obtain ⟨row, hrow, hmembers⟩ := neighbors_of_ofAdjacency h hu
    rw [edge_iff_mem hrow, ← VertexSet.mem_members, hmembers, rowAt, Array.getElem?_eq_getElem hu]
    rfl
  · have hnone : g.neighbors u = .error (.vertexOutOfRange u) :=
      neighbors_eq_error (vertexCount_of_ofAdjacency h ▸ Nat.le_of_not_lt hu)
    rw [rowAt, Array.getElem?_eq_none (by omega)]
    constructor
    · rintro ⟨row, hrow, -⟩
      rw [hnone] at hrow
      cases hrow
    · intro hv
      simp at hv

/-- Edges go both ways, and no vertex has one to itself. -/
structure Undirected (g : HostGraph) : Prop where
  symm : ∀ {u v}, g.Edge u v → g.Edge v u
  irrefl : ∀ u, ¬g.Edge u u

/-- Whether a graph made of rows is undirected and without loops can be read off the rows. -/
theorem undirected_iff {rows : Array (Array Nat)} {g : HostGraph} (h : ofAdjacency rows = .ok g) :
    g.Undirected ↔ ∀ u < rows.size, ∀ v ∈ rowAt rows u, v ≠ u ∧ u ∈ rowAt rows v := by
  constructor
  · intro hg u _ v hv
    have huv := (edge_ofAdjacency_iff h).mpr hv
    exact ⟨fun heq => hg.irrefl u (heq ▸ huv), (edge_ofAdjacency_iff h).mp (hg.symm huv)⟩
  · intro hrows
    have hlt : ∀ {u v : Nat}, v ∈ rowAt rows u → u < rows.size := fun {u v} hv => by
      rcases Nat.lt_or_ge u rows.size with hu | hu
      · exact hu
      · rw [rowAt, Array.getElem?_eq_none hu] at hv
        simp at hv
    constructor
    · intro u v huv
      have hv := (edge_ofAdjacency_iff h).mp huv
      exact (edge_ofAdjacency_iff h).mpr (hrows u (hlt hv) v hv).2
    · intro u huu
      have hu := (edge_ofAdjacency_iff h).mp huu
      exact (hrows u (hlt hu) u hu).1 rfl

/-! ## Graphs made of edges -/

theorem mem_rowAt_addEntry {rows : Array (Array Nat)} {u v x y : Nat} (hu : u < rows.size) :
    y ∈ rowAt (addEntry rows u v) x ↔ y ∈ rowAt rows x ∨ (x = u ∧ y = v) := by
  rw [rowAt, addEntry, Array.getElem?_modify]
  by_cases hx : u = x
  · subst hx
    rw [if_pos rfl, rowAt, Array.getElem?_eq_getElem hu]
    simp
  · rw [if_neg hx, rowAt]
    exact ⟨Or.inl, fun h => h.elim id fun h => (hx h.1.symm).elim⟩

theorem addEdge_eq_ok {rows rows' : Array (Array Nat)} {u v : Nat}
    (h : addEdge rows (u, v) = .ok rows') :
    (u < rows.size ∧ v < rows.size) ∧ rows'.size = rows.size
      ∧ ∀ x y, y ∈ rowAt rows' x
        ↔ y ∈ rowAt rows x ∨ (x ≠ y ∧ ((x = u ∧ y = v) ∨ (y = u ∧ x = v))) := by
  have hif : (if u < rows.size ∧ v < rows.size then
      .ok (if u = v then rows else addEntry (addEntry rows u v) v u)
    else Except.error (Fault.endpointOutOfRange u v rows.size)) = .ok rows' := h
  split at hif
  · next hlt =>
      obtain rfl := Except.ok.inj hif
      refine ⟨hlt, by split <;> simp [addEntry], ?_⟩
      intro x y
      split
      · next heq =>
          subst heq
          exact ⟨Or.inl, fun h => h.elim id fun h => (h.1 (by omega)).elim⟩
      · next hne =>
          rw [mem_rowAt_addEntry (by simpa [addEntry] using hlt.2), mem_rowAt_addEntry hlt.1, or_assoc]
          refine or_congr_right ⟨fun h => ⟨by omega, by omega⟩, fun h => by omega⟩
  · cases hif

theorem foldlM_addEdge_eq_ok : ∀ {edges : List (Nat × Nat)} {rows rows' : Array (Array Nat)},
    edges.foldlM addEdge rows = .ok rows' →
      (∀ e ∈ edges, e.1 < rows.size ∧ e.2 < rows.size) ∧ rows'.size = rows.size
        ∧ ∀ x y, y ∈ rowAt rows' x
          ↔ y ∈ rowAt rows x ∨ (x ≠ y ∧ ((x, y) ∈ edges ∨ (y, x) ∈ edges))
  | [], rows, rows', h => by
      obtain rfl := Except.ok.inj h
      simp
  | (u, v) :: rest, rows, rows', h => by
      rw [List.foldlM_cons] at h
      obtain ⟨rows₁, hadd, h⟩ := bind_eq_ok_iff.mp h
      obtain ⟨hlt, hsize, hmem⟩ := addEdge_eq_ok hadd
      obtain ⟨hlts, hsize', hmem'⟩ := foldlM_addEdge_eq_ok h
      refine ⟨List.forall_mem_cons.mpr ⟨hlt, hsize ▸ hlts⟩, hsize'.trans hsize, ?_⟩
      intro x y
      rw [hmem', hmem, or_assoc]
      refine or_congr_right ?_
      simp only [List.mem_cons, Prod.mk.injEq]
      constructor
      · rintro (⟨hne, h | h⟩ | ⟨hne, h | h⟩)
        · exact ⟨hne, Or.inl (Or.inl h)⟩
        · exact ⟨hne, Or.inr (Or.inl h)⟩
        · exact ⟨hne, Or.inl (Or.inr h)⟩
        · exact ⟨hne, Or.inr (Or.inr h)⟩
      · rintro ⟨hne, (h | h) | (h | h)⟩
        · exact Or.inl ⟨hne, Or.inl h⟩
        · exact Or.inr ⟨hne, Or.inl h⟩
        · exact Or.inl ⟨hne, Or.inr h⟩
        · exact Or.inr ⟨hne, Or.inr h⟩

/-- The rows of collected ends, each made a set. -/
def sortedRows (rows : Array (Array Nat)) : Array (Array Nat) :=
  rows.map fun row => (VertexSet.ofUnsorted row.toList).members

theorem mem_rowAt_sortedRows {rows : Array (Array Nat)} {x y : Nat} :
    y ∈ rowAt (sortedRows rows) x ↔ y ∈ rowAt rows x := by
  rw [rowAt, rowAt, sortedRows, Array.getElem?_map]
  cases rows[x]? with
  | none => rfl
  | some row =>
      show y ∈ (VertexSet.ofUnsorted row.toList).members ↔ y ∈ row
      rw [VertexSet.mem_members, VertexSet.mem_ofUnsorted, Array.mem_toList_iff]

/-- The rows that edges are collected into hold the ends of each, unless it is a loop. -/
theorem collected_eq_ok {count : Nat} {edges : List (Nat × Nat)} {rows : Array (Array Nat)}
    (h : edges.foldlM addEdge (Array.replicate count #[]) = .ok rows) :
    (∀ e ∈ edges, e.1 < count ∧ e.2 < count) ∧ rows.size = count
      ∧ ∀ x y, y ∈ rowAt rows x ↔ x ≠ y ∧ ((x, y) ∈ edges ∨ (y, x) ∈ edges) := by
  obtain ⟨hlt, hsize, hmem⟩ := foldlM_addEdge_eq_ok h
  rw [Array.size_replicate] at hlt hsize
  refine ⟨hlt, hsize, fun x y => ?_⟩
  have hempty : y ∉ rowAt (Array.replicate count #[]) x := by
    rw [rowAt, Array.getElem?_replicate]
    split <;> simp
  rw [hmem, or_iff_right hempty]

/-- A graph made of edges is a graph made of the sorted rows of their ends. -/
theorem ofEdges_eq_ok {count : Nat} {edges : List (Nat × Nat)} {g : HostGraph}
    (h : ofEdges count edges = .ok g) :
    ∃ rows, ofAdjacency rows = .ok g ∧ rows.size = count
      ∧ (∀ e ∈ edges, e.1 < count ∧ e.2 < count)
      ∧ ∀ x y, y ∈ rowAt rows x ↔ x ≠ y ∧ ((x, y) ∈ edges ∨ (y, x) ∈ edges) := by
  unfold ofEdges at h
  obtain ⟨-, h⟩ := check_bind_eq_ok_iff.mp h
  obtain ⟨rows, hfold, h⟩ := bind_eq_ok_iff.mp h
  obtain ⟨hlt, hsize, hmem⟩ := collected_eq_ok hfold
  refine ⟨sortedRows rows, h, by rw [sortedRows, Array.size_map, hsize], hlt, fun x y => ?_⟩
  rw [mem_rowAt_sortedRows, hmem]

/-- In a graph made of edges two vertices are joined if they differ and are listed, in either order. -/
theorem edge_ofEdges_iff {count : Nat} {edges : List (Nat × Nat)} {g : HostGraph}
    (h : ofEdges count edges = .ok g) {u v : Nat} :
    g.Edge u v ↔ u ≠ v ∧ ((u, v) ∈ edges ∨ (v, u) ∈ edges) := by
  obtain ⟨rows, hg, hsize, hlt, hmem⟩ := ofEdges_eq_ok h
  rw [← hmem]
  exact edge_ofAdjacency_iff hg

end PatternCount.HostGraph
