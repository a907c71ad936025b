import PatternCount.AdjacencyCache.Basic
import PatternCount.Proofs.HostGraph.Rows
import PatternCount.Proofs.VertexSet.Algebra

/-!
# What an adjacency cache holds

The rows of a cache stand one after another in one array, and `ofRows` writes down the cache that has a given set as
the row of each vertex. Reading it gives these sets back (`row_ofRows`): each row is a slice that lies within the
array. Nothing else is in the array (`size_storage_ofRows`). Whatever the way a cache is made, it is such a cache:

- **from the host graph** (`build_eq`), it has the rows of the graph, restricted to `within`;
- **from another cache** (`derive_eq`), it has the rows of that one, restricted to the narrower set.

`cache.Holds content` says of a cache, made in whatever way, which members its rows have: the row at the position of a
vertex `v` has exactly the members `w` with `content v w` (`build_holds`, `derive_holds`).
-/

namespace PatternCount.AdjacencyCache

/-! ## Rows one after another -/

/-- The cache over `vertices` with `content v` as the row of each vertex `v`. -/
def ofRows (vertices within : VertexSet) (content : Nat → VertexSet) : AdjacencyCache where
  vertices := vertices
  within := within
  offsets := (HostGraph.rowOffsets 0 (vertices.toList.map fun v => (content v).members)).toArray
  storage := (vertices.toList.flatMap fun v => (content v).toList).toArray
  reuse := .one

section OfRows

variable {vertices within : VertexSet} {content : Nat → VertexSet}

theorem row_ofRows {i v : Nat} (h : vertices.members[i]? = some v) :
    (ofRows vertices within content).row i = .ok (content v) := by
  have hlist : (vertices.toList.map fun v => (content v).members)[i]? = some (content v).members := by
    rw [List.getElem?_map, VertexSet.toList, Array.getElem?_toList, h]
    rfl
  have hstorage : (ofRows vertices within content).storage.toList
      = ((vertices.toList.map fun v => (content v).members).map Array.toList).flatten := by
    rw [List.map_map]
    exact List.flatMap_def ..
  obtain ⟨start, stop, hstart, hstop, -, hslice⟩ := HostGraph.slice_rowOffsets rfl hstorage hlist
  have hlt : i < (ofRows vertices within content).size := (Array.getElem?_eq_some_iff.mp h).1
  rw [row, if_pos hlt]
  simp only [Fault.index, ofRows] at hstart hstop ⊢
  rw [hstart, hstop]
  show (Fault.slice (ofRows vertices within content).storage start stop >>= VertexSet.ofArray) = _
  rw [hslice]
  exact VertexSet.ofArray_members _

theorem size_storage_ofRows :
    (ofRows vertices within content).storage.size = (vertices.toList.map fun v => (content v).size).sum := by
  rw [ofRows, List.size_toArray, List.length_flatMap]
  simp only [VertexSet.length_toList]

/-- Only the rows of the vertices in the cache count. -/
theorem ofRows_congr {content' : Nat → VertexSet} (h : ∀ v ∈ vertices, content v = content' v) :
    ofRows vertices within content = ofRows vertices within content' := by
  have hmembers : (vertices.toList.map fun v => (content v).members)
      = vertices.toList.map fun v => (content' v).members :=
    List.map_congr_left fun v hv => by rw [h v hv]
  have hlists : (vertices.toList.flatMap fun v => (content v).toList)
      = vertices.toList.flatMap fun v => (content' v).toList :=
    List.flatMap_congr fun v hv => by rw [h v hv]
  rw [ofRows, hmembers, hlists]
  rfl

/-- Appending rows appends what each vertex has to the storage, and where each row ends to the offsets. -/
theorem appendRows_eq_ok {row : Nat → Nat → Array Nat → Except Fault (Array Nat)} :
    ∀ (vs : List Nat) {i : Nat} (made : AdjacencyCache.Builder),
      (∀ j v, vs[j]? = some v → ∀ buffer, row (i + j) v buffer = .ok (content v).members) →
      ∃ made', appendRows row vs i made = .ok made'
        ∧ made'.offsets.toList = made.offsets.toList
          ++ (HostGraph.rowOffsets made.storage.size (vs.map fun v => (content v).members)).tail
        ∧ made'.storage.toList = made.storage.toList ++ vs.flatMap fun v => (content v).toList
  | [], i, made, _ => ⟨made, rfl, by simp [HostGraph.rowOffsets], by simp⟩
  | v :: vs, i, made, h => by
      obtain ⟨made', hmade, hoff, hsto⟩ := appendRows_eq_ok vs (i := i + 1)
        ⟨made.offsets.push (made.storage ++ (content v).members).size,
          made.storage ++ (content v).members, (content v).members⟩
        (fun j w hw buffer => by
          rw [Nat.add_right_comm]
          exact h (j + 1) w hw buffer)
      refine ⟨made', ?_, ?_, ?_⟩
      · rw [appendRows, show row i v made.buffer = .ok (content v).members from h 0 v rfl _]
        exact hmade
      · rw [hoff, List.map_cons, HostGraph.rowOffsets, List.tail_cons, Array.size_append,
          Array.toList_push, List.append_assoc]
        cases vs <;> rfl
      · rw [hsto, Array.toList_append, List.append_assoc, List.flatMap_cons]
        rfl

/-- A cache is built if each of its rows is. -/
theorem buildWith_eq {row : Nat → Nat → Array Nat → Except Fault (Array Nat)}
    (h : ∀ i v, vertices.members[i]? = some v → ∀ buffer, row i v buffer = .ok (content v).members) :
    buildWith vertices within row = .ok (ofRows vertices within content) := by
  have hrows : ∀ j v, vertices.toList[j]? = some v →
      ∀ buffer, row (0 + j) v buffer = .ok (content v).members := fun j v hv buffer => by
    rw [Nat.zero_add]
    exact h j v (by rw [← Array.getElem?_toList]; exact hv) buffer
  obtain ⟨made, hmade, hoff, hsto⟩ := appendRows_eq_ok vertices.toList ⟨#[0], #[], #[]⟩ hrows
  have hoffsets : made.offsets
      = (HostGraph.rowOffsets 0 (vertices.toList.map fun v => (content v).members)).toArray := by
    apply Array.toList_inj.mp
    rw [hoff]
    cases vertices.toList <;> rfl
  have hstorage : made.storage = (vertices.toList.flatMap fun v => (content v).toList).toArray :=
    Array.toList_inj.mp hsto
  rw [buildWith, hmade, ofRows, ← hoffsets, ← hstorage]
  rfl

end OfRows

/-! ## Ways to make a cache -/

theorem build_eq {g : HostGraph} {vertices : VertexSet} (within : VertexSet) (hg : g.Closed)
    (hv : ∀ v ∈ vertices, v < g.vertexCount) :
    build g vertices within = .ok (ofRows vertices within fun v => (g.neighborhood v).common within none) := by
  refine buildWith_eq ?_
  intro i v hi buffer
  rw [hg.neighbors_eq (hv v (VertexSet.mem_iff_getElem?.mpr ⟨i, hi⟩))]
  show Except.ok ((g.neighborhood v).intersectInto within none buffer) = _
  rw [VertexSet.intersectInto_eq]

/-- A narrowed cache has what is left of the rows of the wider one. -/
theorem derive_eq {cache : AdjacencyCache} {content : Nat → VertexSet}
    (h : ∀ j v : Nat, cache.vertices.members[j]? = some v → cache.row j = .ok (content v))
    {positions : Array Nat} {vertices : VertexSet} (within : VertexSet) (hsize : positions.size = vertices.size)
    (hpos : ∀ i v : Nat, vertices.members[i]? = some v →
      ∃ j, positions[i]? = some j ∧ cache.vertices.members[j]? = some v) :
    cache.derive positions vertices within
      = .ok (ofRows vertices within fun v => (content v).common within none) := by
  rw [derive, if_pos hsize]
  refine buildWith_eq ?_
  intro i v hi buffer
  obtain ⟨j, hj, hjv⟩ := hpos i v hi
  simp only [Fault.index, hj]
  show (do return (← cache.row j).intersectInto within none buffer) = _
  rw [h j v hjv]
  show Except.ok ((content v).intersectInto within none buffer) = _
  rw [VertexSet.intersectInto_eq]

/-! ## Members of rows -/

/-- The row of each cached vertex `v` has exactly the members `w` with `content v w`. -/
def Holds (cache : AdjacencyCache) (content : Nat → Nat → Prop) : Prop :=
  ∀ (i v : Nat), cache.vertices.members[i]? = some v →
    ∃ row, cache.row i = .ok row ∧ ∀ w, w ∈ row ↔ content v w

theorem Holds.withReuse {cache : AdjacencyCache} {content : Nat → Nat → Prop}
    (h : cache.Holds content) (reuse : Binary64) : (cache.withReuse reuse).Holds content := h

theorem build_holds {g : HostGraph} (vertices within : VertexSet) (hg : g.Closed)
    (hv : ∀ v ∈ vertices, v < g.vertexCount) :
    ∃ cache, build g vertices within = .ok cache ∧ cache.vertices = vertices ∧ cache.within = within
      ∧ cache.Holds fun v w => g.Edge v w ∧ w ∈ within := by
  refine ⟨_, build_eq within hg hv, rfl, rfl, ?_⟩
  intro i v hi
  have hrow := hg.neighbors_eq (hv v (VertexSet.mem_iff_getElem?.mpr ⟨i, hi⟩))
  refine ⟨_, row_ofRows hi, ?_⟩
  intro w
  show _ ↔ g.Edge v w ∧ w ∈ within
  rw [VertexSet.mem_common, HostGraph.edge_iff_mem hrow]
  exact and_congr_right fun _ => and_iff_left nofun

/-- A narrowed cache holds what the wider one held, into the narrower set. -/
theorem derive_holds {cache : AdjacencyCache} {content : Nat → Nat → Prop} (h : cache.Holds content)
    {positions : Array Nat} {vertices : VertexSet} (within : VertexSet)
    (hsize : positions.size = vertices.size)
    (hpos : ∀ (i v : Nat), vertices.members[i]? = some v →
      ∃ j, positions[i]? = some j ∧ cache.vertices.members[j]? = some v) :
    ∃ cache', cache.derive positions vertices within = .ok cache' ∧ cache'.vertices = vertices
      ∧ cache'.within = within ∧ cache'.Holds fun v w => content v w ∧ w ∈ within := by
  -- Each vertex stands at one position, so the rows may be named by their vertices.
  let wide : Nat → VertexSet := fun v =>
    ((cache.vertices.position? v).bind fun j => (cache.row j).toOption).getD default
  have hwide : ∀ j v : Nat, cache.vertices.members[j]? = some v →
      cache.row j = .ok (wide v) ∧ ∀ w, w ∈ wide v ↔ content v w := fun j v hj => by
    obtain ⟨row, hrow, hmem⟩ := h j v hj
    have : wide v = row := by
      simp only [wide, VertexSet.position?_eq_some_iff.mpr hj, Option.bind_some, hrow]
      rfl
    exact this ▸ ⟨hrow, hmem⟩
  refine ⟨_, derive_eq (fun j v hj => (hwide j v hj).1) within hsize hpos, rfl, rfl, ?_⟩
  intro i v hi
  obtain ⟨j, -, hjv⟩ := hpos i v hi
  refine ⟨_, row_ofRows hi, ?_⟩
  intro w
  rw [VertexSet.mem_common, (hwide j v hjv).2]
  exact and_congr_right fun _ => and_iff_left nofun

end PatternCount.AdjacencyCache
