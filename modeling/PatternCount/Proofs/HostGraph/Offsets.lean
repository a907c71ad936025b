import Mathlib.Algebra.Order.BigOperators.Group.List
import Mathlib.Algebra.Order.Group.Nat
import PatternCount.Proofs.HostGraph.Rows

/-!
# Rows in, rows out

A graph takes rows as they are if each of them ascends and holds vertices only (`GoodRow`), and there are not too many
(`Accepted`). Otherwise the first row that is not so is named, with what is wrong in it (`BadRow`).

`g.MadeOf rows` says what can be read from a graph that was made of rows. Its offsets are the sums of the row lengths,
from zero on, so that each row lies between two of them and the last ends where the entries do. Hence every row comes
back as it went in, and the sum and the maximum of the lengths are those of the graph. There is no row for anything
that is not a vertex.

The offsets are words. While rows are added up the sum would stop at the largest word (`saturatedOffsets`), but rows
of as many vertices as there can be do not come so far.
-/

namespace PatternCount.HostGraph

/-! ## Acceptance -/

/-- The row ascends and its entries are among `count` vertices. -/
def GoodRow (count : Nat) (row : Array Nat) : Prop := Ascending row.toList ∧ ∀ v ∈ row.toList, v < count

def Accepted (rows : Array (Array Nat)) : Prop :=
  rows.size ≤ maxVertexCount ∧ ∀ row ∈ rows.toList, GoodRow rows.size row

/-- What is wrong with row `u` of a graph of `count` vertices: it does not ascend, or it does and its first entry that
is no vertex is named. -/
inductive BadRow (count u : Nat) (row : Array Nat) : Fault → Prop where
  | unsorted (h : ¬ Ascending row.toList) : BadRow count u row (.unsortedRow u)
  | entry {v : Nat} (h : Ascending row.toList) (hv : v ∈ row) (hcount : count ≤ v)
      (hfirst : ∀ w ∈ row, count ≤ w → v ≤ w) : BadRow count u row (.entryOutOfRange u v count)

section

variable {count u : Nat} {row : Array Nat} {f : Fault}

/-- In an ascending list the first element that is not below a bound is the least. -/
theorem find?_ascending {xs : List Nat} (hasc : Ascending xs) {v : Nat} :
    xs.find? (count ≤ ·) = some v ↔ v ∈ xs ∧ count ≤ v ∧ ∀ w ∈ xs, count ≤ w → v ≤ w := by
  induction xs with
  | nil => simp
  | cons x xs ih =>
      obtain ⟨hx, hxs⟩ := List.pairwise_cons.mp hasc
      by_cases hle : count ≤ x
      · rw [List.find?_cons_of_pos (by simpa using hle)]
        constructor
        · intro h
          obtain rfl := Option.some.inj h
          refine ⟨List.mem_cons_self, hle, ?_⟩
          intro w hw _
          rcases List.mem_cons.mp hw with rfl | hw
          · exact Nat.le_refl _
          · exact Nat.le_of_lt (hx w hw)
        · rintro ⟨hv, -, hleast⟩
          rcases List.mem_cons.mp hv with rfl | hv
          · rfl
          · exact absurd (hx v hv) (Nat.not_lt_of_le (hleast x List.mem_cons_self hle))
      · rw [List.find?_cons_of_neg (by simpa using hle), ih hxs]
        constructor
        · rintro ⟨hv, hcount, hleast⟩
          refine ⟨List.mem_cons_of_mem x hv, hcount, ?_⟩
          intro w hw hcount'
          rcases List.mem_cons.mp hw with rfl | hw
          · exact absurd hcount' hle
          · exact hleast w hw hcount'
        · rintro ⟨hv, hcount, hleast⟩
          refine ⟨(List.mem_cons.mp hv).resolve_left fun h => hle (h ▸ hcount), hcount, ?_⟩
          exact fun w hw => hleast w (List.mem_cons_of_mem x hw)

theorem checkRow_eq_error_iff : checkRow count row u = .error f ↔ BadRow count u row f := by
  unfold checkRow
  by_cases hasc : Ascending row.toList
  · rw [if_pos hasc]
    cases hfind : row.toList.find? (count ≤ ·) with
    | none =>
        refine iff_of_false nofun fun h => ?_
        cases h with
        | unsorted h => exact h hasc
        | entry _ hv hcount _ =>
            have := List.find?_eq_none.mp hfind _ (Array.mem_toList_iff.mpr hv)
            exact this (decide_eq_true hcount)
    | some v =>
        obtain ⟨hv, hcount, hfirst⟩ := (find?_ascending hasc).mp hfind
        simp only [Array.mem_toList_iff] at hv hfirst
        constructor
        · intro h
          obtain rfl := Except.error.inj h
          exact .entry hasc hv hcount hfirst
        · intro h
          cases h with
          | unsorted h => exact absurd hasc h
          | entry _ hw hcount' hfirst' =>
              rw [Nat.le_antisymm (hfirst _ hw hcount') (hfirst' _ hv hcount)]
  · rw [if_neg hasc]
    constructor
    · intro h
      obtain rfl := Except.error.inj h
      exact .unsorted hasc
    · intro h
      cases h with
      | unsorted => rfl
      | entry h => exact absurd h hasc

/-- The check of rows fails at the first that is bad. -/
theorem checkRows_eq_error_iff {rows : List (Array Nat)} {u : Nat} :
    checkRows count rows u = .error f ↔ ∃ (i : Nat) (row : Array Nat), rows[i]? = some row ∧
      BadRow count (u + i) row f ∧
      ∀ row ∈ rows.take i, GoodRow count row := by
  induction rows generalizing u with
  | nil =>
      refine iff_of_false nofun ?_
      rintro ⟨i, _, h, -⟩
      cases h
  | cons row rest ih =>
      rw [checkRows]
      cases hrow : checkRow count row u with
      | error f' =>
          have hbad := checkRow_eq_error_iff.mp hrow
          constructor
          · intro h
            obtain rfl := Except.error.inj h
            exact ⟨0, row, rfl, hbad, List.forall_mem_nil _⟩
          · rintro ⟨_ | i, row', hrow', hbad', hbefore⟩
            · obtain rfl := Option.some.inj hrow'
              rw [← checkRow_eq_error_iff, Nat.add_zero, hrow] at hbad'
              exact hbad'
            · have hgood := checkRow_eq_ok_iff (u := u).mpr (hbefore row (List.mem_cons_self ..))
              rw [hrow] at hgood
              cases hgood
      | ok _ =>
          have hgood := checkRow_eq_ok_iff.mp hrow
          show checkRows count rest (u + 1) = .error f ↔ _
          rw [ih]
          constructor
          · rintro ⟨i, row', hrow', hbad, hbefore⟩
            exact ⟨i + 1, row', hrow', by rwa [← Nat.add_assoc, Nat.add_right_comm],
              List.forall_mem_cons.mpr ⟨hgood, hbefore⟩⟩
          · rintro ⟨_ | i, row', hrow', hbad, hbefore⟩
            · obtain rfl := Option.some.inj hrow'
              rw [← checkRow_eq_error_iff, Nat.add_zero, hrow] at hbad
              cases hbad
            · exact ⟨i, row', hrow', by rwa [Nat.add_right_comm, Nat.add_assoc],
                (List.forall_mem_cons.mp hbefore).2⟩

end

section

variable {rows : Array (Array Nat)} {g : HostGraph} {f : Fault}

theorem exists_ofAdjacency_iff : (∃ g, ofAdjacency rows = .ok g) ↔ Accepted rows := by
  simp only [ofAdjacency_eq_ok_iff, exists_and_left, exists_eq, and_true]
  rfl

/-- A list of rows is refused because it is too long, or because of its first bad row. -/
theorem ofAdjacency_eq_error_iff : ofAdjacency rows = .error f ↔
    (maxVertexCount < rows.size ∧ f = .tooManyVertices rows.size) ∨
      rows.size ≤ maxVertexCount ∧ ∃ (u : Nat) (row : Array Nat), rows[u]? = some row ∧ BadRow rows.size u row f ∧
        ∀ row ∈ rows.toList.take u, GoodRow rows.size row := by
  unfold ofAdjacency
  by_cases hsize : maxVertexCount < rows.size
  · rw [if_pos hsize]
    refine Iff.trans ?_ (or_iff_left fun h => Nat.not_lt_of_le h.1 hsize).symm
    exact ⟨fun h => ⟨hsize, (Except.error.inj h).symm⟩, fun h => h.2 ▸ rfl⟩
  · rw [if_neg hsize]
    refine Iff.trans ?_ (or_iff_right fun h => hsize h.1).symm
    have hcheck : checkRows rows.size rows.toList 0 = .error f ↔ _ := checkRows_eq_error_iff
    simp only [Nat.zero_add, Array.getElem?_toList] at hcheck
    rw [← hcheck]
    rcases hrows : checkRows rows.size rows.toList 0 with f' | _
    · exact ⟨fun h => ⟨Nat.le_of_not_lt hsize, congrArg Except.error (Except.error.inj h)⟩,
        fun h => congrArg Except.error (Except.error.inj h.2)⟩
    · exact iff_of_false nofun fun h => nomatch h.2

/-! ## Offsets -/

/-- The offsets of rows, added up in words: the sum stops at the largest. -/
def saturatedOffsets (start : Nat) : List (Array Nat) → List Nat
  | [] => [start]
  | row :: rest => start :: saturatedOffsets (Word.saturatingAdd start row.size) rest

theorem saturatedOffsets_eq : ∀ {rows : List (Array Nat)} {start : Nat},
    start + (rows.map Array.size).sum ≤ Word.max → saturatedOffsets start rows = rowOffsets start rows
  | [], _, _ => rfl
  | row :: rest, start, h => by
      rw [List.map_cons, List.sum_cons, ← Nat.add_assoc] at h
      have hfits : Word.saturatingAdd start row.size = start + row.size :=
        Nat.min_eq_left (Nat.le_trans (Nat.le_add_right _ _) h)
      rw [saturatedOffsets, rowOffsets, hfits, saturatedOffsets_eq h]

theorem le_of_mem_rowOffsets : ∀ {rows : List (Array Nat)} {start o : Nat}, o ∈ rowOffsets start rows → start ≤ o
  | [], _, _, h => Nat.le_of_eq (List.mem_singleton.mp h).symm
  | row :: rest, start, o, h => by
      rcases List.mem_cons.mp h with rfl | h
      · exact Nat.le_refl _
      · exact Nat.le_trans (Nat.le_add_right _ _) (le_of_mem_rowOffsets h)

theorem pairwise_rowOffsets : ∀ (start : Nat) (rows : List (Array Nat)), (rowOffsets start rows).Pairwise (· ≤ ·)
  | _, [] => List.pairwise_singleton ..
  | _, _ :: rest => List.pairwise_cons.mpr
      ⟨fun _ h => Nat.le_trans (Nat.le_add_right _ _) (le_of_mem_rowOffsets h), pairwise_rowOffsets _ rest⟩

theorem size_flatten (rows : Array (Array Nat)) : rows.flatten.size = (rows.toList.map Array.size).sum := by
  rw [Array.size_flatten, ← Array.sum_toList, Array.toList_map]

/-- A row has no more entries than there are vertices. -/
theorem GoodRow.size_le {count : Nat} {row : Array Nat} (h : GoodRow count row) : row.size ≤ count := by
  have hsub : row.toList ⊆ List.range count := fun v hv => List.mem_range.mpr (h.2 v hv)
  have hle := (List.subperm_of_subset h.1.nodup hsub).length_le
  rwa [Array.length_toList, List.length_range] at hle

theorem Accepted.sum_size_le (h : Accepted rows) : (rows.toList.map Array.size).sum ≤ Word.max := by
  have hle : ∀ x ∈ rows.toList.map Array.size, x ≤ rows.size :=
    List.forall_mem_map.mpr fun row hrow => (h.2 row hrow).size_le
  calc (rows.toList.map Array.size).sum
      ≤ (rows.toList.map Array.size).length * rows.size := List.sum_le_card_nsmul _ _ hle
    _ = rows.size * rows.size := by rw [List.length_map, Array.length_toList]
    _ ≤ maxVertexCount * maxVertexCount := Nat.mul_le_mul h.1 h.1
    _ ≤ Word.max := by decide

/-! ## Reading the rows back -/

/-- What can be read from a graph that is made of rows. -/
structure MadeOf (rows : Array (Array Nat)) (g : HostGraph) : Prop where
  vertexCount : g.vertexCount = rows.size
  offsets_size : g.offsets.size = rows.size + 1
  offsets_zero : g.offsets[0]? = some 0
  offsets_last : g.offsets[rows.size]? = some g.entries.size
  offsets_monotone : g.offsets.toList.Pairwise (· ≤ ·)
  offsets_words : g.offsets.toList = saturatedOffsets 0 rows.toList
  row : ∀ v (hv : v < rows.size), (g.neighbors v).map VertexSet.members = .ok rows[v]
  degree : ∀ v (hv : v < rows.size), g.degree v = .ok rows[v].size
  readBack : ((List.range g.vertexCount).mapM g.neighbors).map (·.map VertexSet.members) = .ok rows.toList
  degrees : (List.range g.vertexCount).mapM g.degree = .ok (rows.toList.map Array.size)
  entryCount : g.entryCount = (rows.toList.map Array.size).sum
  maxDegree : g.maxDegree = (rows.toList.map Array.size).max?.getD 0
  noRow : ∀ v ≥ rows.size, g.neighbors v = .error (.vertexOutOfRange v) ∧ g.degree v = .error (.vertexOutOfRange v)

theorem map_rowAt_range (rows : Array (Array Nat)) : (List.range rows.size).map (rowAt rows) = rows.toList := by
  refine List.ext_getElem (by simp) ?_
  intro v hv hv'
  rw [Array.length_toList] at hv'
  simp [rowAt, hv']

theorem offsets_of_ofAdjacency (h : ofAdjacency rows = .ok g) :
    g.offsets = (rowOffsets 0 rows.toList).toArray ∧ g.entries.size = (rows.toList.map Array.size).sum := by
  obtain ⟨-, -, hoff, hent⟩ := ofAdjacency_eq_ok h
  exact ⟨hoff, hent ▸ size_flatten rows⟩

theorem degree_of_ofAdjacency (h : ofAdjacency rows = .ok g) {v : Nat} (hv : v < rows.size) :
    g.degree v = .ok rows[v].size := by
  obtain ⟨start, stop, hbounds, rfl, -⟩ := rowBounds_of_ofAdjacency h hv
  rw [HostGraph.degree, hbounds]
  show Word.checkedSub (start + rows[v].size) start = _
  rw [Word.checkedSub, if_pos (Nat.le_add_right _ _), Nat.add_sub_cancel_left]

theorem madeOf_of_ofAdjacency (h : ofAdjacency rows = .ok g) : g.MadeOf rows where
  vertexCount := vertexCount_of_ofAdjacency h
  offsets_size := by
    rw [(offsets_of_ofAdjacency h).1, List.size_toArray, length_rowOffsets, Array.length_toList]
  offsets_zero := by
    rw [(offsets_of_ofAdjacency h).1, List.getElem?_toArray, getElem?_rowOffsets _ _ (Nat.zero_le _)]
    rfl
  offsets_last := by
    obtain ⟨hoff, hent⟩ := offsets_of_ofAdjacency h
    rw [hoff, List.getElem?_toArray, getElem?_rowOffsets _ _ (Nat.le_of_eq Array.length_toList.symm), hent,
      Nat.zero_add, ← Array.length_toList, List.take_length]
  offsets_monotone := by
    rw [(offsets_of_ofAdjacency h).1]
    exact pairwise_rowOffsets 0 _
  offsets_words := by
    have hsum := (exists_ofAdjacency_iff.mp ⟨g, h⟩).sum_size_le
    rw [(offsets_of_ofAdjacency h).1, saturatedOffsets_eq (by rwa [Nat.zero_add])]
  row := fun v hv => by
    obtain ⟨row, hrow, hmembers⟩ := neighbors_of_ofAdjacency h hv
    rw [hrow, ← hmembers]
    rfl
  degree := fun v hv => degree_of_ofAdjacency h hv
  readBack := by
    have hrow : ∀ v ∈ List.range rows.size, g.neighbors v = .ok (g.neighborhood v) := fun v hv => by
      rw [← vertexCount_of_ofAdjacency h, List.mem_range] at hv
      exact (closed_of_ofAdjacency h).neighbors_eq hv
    rw [vertexCount_of_ofAdjacency h, mapM_eq_ok hrow]
    show Except.ok (((List.range rows.size).map g.neighborhood).map VertexSet.members) = _
    rw [List.map_map, ← map_rowAt_range rows]
    refine congrArg Except.ok (List.map_congr_left fun v hv => ?_)
    obtain ⟨row, hrow, hmembers⟩ := neighbors_of_ofAdjacency h (List.mem_range.mp hv)
    rw [rowAt, Array.getElem?_eq_getElem (List.mem_range.mp hv), Option.getD_some, ← hmembers]
    show (g.neighborhood v).members = row.members
    rw [neighborhood, hrow]
    rfl
  degrees := by
    have hdegree : ∀ v ∈ List.range rows.size, g.degree v = .ok (rowAt rows v).size := fun v hv => by
      rw [degree_of_ofAdjacency h (List.mem_range.mp hv), rowAt, Array.getElem?_eq_getElem (List.mem_range.mp hv),
        Option.getD_some]
    rw [vertexCount_of_ofAdjacency h, mapM_eq_ok hdegree]
    show Except.ok ((List.range rows.size).map (Array.size ∘ rowAt rows)) = _
    rw [← List.map_map, map_rowAt_range]
  entryCount := (offsets_of_ofAdjacency h).2
  maxDegree := by
    obtain ⟨-, -, rfl⟩ := ofAdjacency_eq_ok_iff.mp h
    show rows.toList.foldl (fun most row => max most row.size) 0 = _
    rw [← List.foldl_map (f := Array.size) (g := max), List.foldl_max, Nat.zero_max]
  noRow := fun v hv => by
    have hv : g.vertexCount ≤ v := vertexCount_of_ofAdjacency h ▸ hv
    refine ⟨neighbors_eq_error hv, ?_⟩
    rw [HostGraph.degree, rowBounds_eq_error hv]
    rfl

/-- Rows make a graph exactly if they are accepted; if not, the first bad one is named. The graph gives back the rows
that it is made of, and nothing else. -/
theorem ofAdjacency_outcome (rows : Array (Array Nat)) :
    ((∃ g, ofAdjacency rows = .ok g) ↔ Accepted rows) ∧
      (∀ f, ofAdjacency rows = .error f ↔ (maxVertexCount < rows.size ∧ f = .tooManyVertices rows.size) ∨
        rows.size ≤ maxVertexCount ∧ ∃ (u : Nat) (row : Array Nat), rows[u]? = some row ∧
          BadRow rows.size u row f ∧ ∀ row ∈ rows.toList.take u, GoodRow rows.size row) ∧
      ∀ g, ofAdjacency rows = .ok g → g.MadeOf rows :=
  ⟨exists_ofAdjacency_iff, fun _ => ofAdjacency_eq_error_iff, fun _ => madeOf_of_ofAdjacency⟩

end

end PatternCount.HostGraph
