import PatternCount.Proofs.AdjacencyCache.Positions
import PatternCount.Proofs.AdjacencyCache.Rows

/-!
# Caches narrowed again and again

A cache can be narrowed from one that was narrowed itself. `buildChain` makes a cache from the host graph and then
narrows it step by step, each time to vertices that the last cache holds; the sets to which the rows are restricted
may be any. By induction on the steps no call fails, and the rows are those of the graph restricted to all of these
sets (`narrowAll_eq`). If these get smaller too, the last of them says it all, and the chain makes the very cache that
is made from the graph at once (`buildChain_rows`).
-/

namespace PatternCount

/-- A step that narrows a cache. -/
structure Narrowing where
  /-- How often the wider cache is expected to be read, when its positions are asked for. -/
  reuse : Binary64
  /-- The buffer for these positions. -/
  buffer : Array Nat
  vertices : VertexSet
  within : VertexSet

namespace AdjacencyCache

def narrow (cache : AdjacencyCache) (step : Narrowing) : Except Fault AdjacencyCache := do
  let cache := cache.withReuse step.reuse
  let positions ← cache.positionsInto step.vertices step.buffer
  cache.derive positions step.vertices step.within

/-- A cache made from the host graph, and narrowed step by step. -/
def buildChain (g : HostGraph) (vertices within : VertexSet) (steps : List Narrowing) :
    Except Fault AdjacencyCache := do
  steps.foldlM narrow (← build g vertices within)

/-! ## Nested sets -/

/-- The last of nested sets lies in all of them. -/
theorem getLastD_subset : ∀ {s : VertexSet} {ts : List VertexSet}, (s :: ts).IsChain (· ⊇ ·) →
    ∀ t ∈ s :: ts, ts.getLastD s ⊆ t
  | s, [], _, t, ht => by
      obtain rfl := List.mem_singleton.mp ht
      exact fun v hv => hv
  | s, u :: ts, h, t, ht => by
      obtain ⟨hsu, hts⟩ := List.isChain_cons_cons.mp h
      rw [List.getLastD_cons]
      rcases List.mem_cons.mp ht with rfl | ht
      · exact fun v hv => hsu v (getLastD_subset hts u List.mem_cons_self v hv)
      · exact getLastD_subset hts t ht

theorem mem_getLastD_iff {s : VertexSet} {ts : List VertexSet} (h : (s :: ts).IsChain (· ⊇ ·)) {w : Nat} :
    w ∈ ts.getLastD s ↔ ∀ t ∈ s :: ts, w ∈ t :=
  ⟨fun hw t ht => getLastD_subset h t ht w hw, fun hall => hall _ (List.getLastD_mem_cons ..)⟩

/-! ## Steps -/

variable {vertices within : VertexSet} {content : Nat → VertexSet}

/-- Narrowing to vertices that are cached leaves of each row what the narrower set has of it. -/
theorem narrow_eq (step : Narrowing) (h : vertices ⊇ step.vertices) :
    (ofRows vertices within content).narrow step
      = .ok (ofRows step.vertices step.within fun v => (content v).common step.within none) := by
  obtain ⟨found, hfound, hsize, hpos⟩ :=
    ((ofRows vertices within content).withReuse step.reuse).positionsInto_eq_ok step.vertices h step.buffer
  have hrows : ∀ j v : Nat, vertices.members[j]? = some v →
      ((ofRows vertices within content).withReuse step.reuse).row j = .ok (content v) := fun j v hj => by
    show (ofRows vertices within content).row j = _
    exact row_ofRows hj
  rw [narrow, hfound]
  exact derive_eq hrows step.within hsize hpos

theorem narrowAll_eq : ∀ {steps : List Narrowing} {vertices : VertexSet} (within : VertexSet)
    (content : Nat → VertexSet), (vertices :: steps.map Narrowing.vertices).IsChain (· ⊇ ·) →
    ∃ content', steps.foldlM narrow (ofRows vertices within content)
        = .ok (ofRows ((steps.map Narrowing.vertices).getLastD vertices)
          ((steps.map Narrowing.within).getLastD within) content') ∧
      ∀ v w, w ∈ content' v ↔ w ∈ content v ∧ ∀ set ∈ steps.map Narrowing.within, w ∈ set
  | [], _, _, content, _ => ⟨content, rfl, by simp⟩
  | step :: steps, _, _, content, h => by
      obtain ⟨hstep, hsteps⟩ := List.isChain_cons_cons.mp h
      obtain ⟨content', hchain, hmem⟩ :=
        narrowAll_eq step.within (fun v => (content v).common step.within none) hsteps
      refine ⟨content', ?_, ?_⟩
      · rw [List.foldlM_cons, narrow_eq step hstep, List.map_cons, List.map_cons, List.getLastD_cons,
          List.getLastD_cons]
        exact hchain
      · intro v w
        rw [hmem, VertexSet.mem_common, and_iff_left (nofun : none ≠ some w), List.map_cons, List.forall_mem_cons,
          and_assoc]

/-- The rows of a cache, read one after another. -/
theorem rows_ofRows :
    (List.range vertices.size).mapM (ofRows vertices within content).row = .ok (vertices.toList.map content) := by
  rw [← vertices.map_range_members content]
  refine mapM_eq_ok ?_
  intro j hj
  have hj : j < vertices.members.size := List.mem_range.mp hj
  have hv : vertices.members[j]? = some vertices.members[j] := Array.getElem?_eq_getElem hj
  rw [row_ofRows hv, hv, Option.getD_some]

/-! ## Chains -/

/-- Narrowing a cache step by step, each time to vertices that are cached, never fails, whatever is expected of its
reuse on the way. The rows of the cache that is made are those of the graph restricted to all the sets on the way, and
nothing else is stored. If these sets get smaller, it is the cache that is made at once of the last of them. -/
theorem buildChain_rows {rows : Array (Array Nat)} {g : HostGraph} (hg : HostGraph.ofAdjacency rows = .ok g)
    {vertices : VertexSet} (within : VertexSet) {steps : List Narrowing} (hvertices : ∀ v ∈ vertices, v < g.vertexCount)
    (hnested : (vertices :: steps.map Narrowing.vertices).IsChain (· ⊇ ·)) :
    ∃ cache, buildChain g vertices within steps = .ok cache ∧
      cache.vertices = (steps.map Narrowing.vertices).getLastD vertices ∧
      (∀ j v : Nat, cache.vertices.members[j]? = some v →
        ∃ neighbors row, g.neighbors v = .ok neighbors ∧ cache.row j = .ok row ∧
          ∀ w, w ∈ row ↔ w ∈ neighbors ∧ ∀ set ∈ within :: steps.map Narrowing.within, w ∈ set) ∧
      (∃ made, (List.range cache.vertices.size).mapM cache.row = .ok made ∧
        cache.storage.size = (made.map VertexSet.size).sum) ∧
      ((within :: steps.map Narrowing.within).IsChain (· ⊇ ·) →
        build g cache.vertices ((steps.map Narrowing.within).getLastD within) = .ok cache) := by
  have hclosed := HostGraph.closed_of_ofAdjacency hg
  obtain ⟨content, hchain, hmem⟩ :=
    narrowAll_eq within (fun v => (g.neighborhood v).common within none) hnested
  have hrow : ∀ v w, w ∈ content v ↔
      w ∈ g.neighborhood v ∧ ∀ set ∈ within :: steps.map Narrowing.within, w ∈ set := by
    intro v w
    rw [hmem, VertexSet.mem_common, and_iff_left (nofun : none ≠ some w), List.forall_mem_cons, and_assoc]
  have hlast : ∀ v ∈ (steps.map Narrowing.vertices).getLastD vertices, v < g.vertexCount := fun v hv =>
    hvertices v (getLastD_subset hnested vertices List.mem_cons_self v hv)
  refine ⟨ofRows _ ((steps.map Narrowing.within).getLastD within) content, ?_, rfl, ?_,
    ⟨_, rows_ofRows, ?_⟩, ?_⟩
  · rw [buildChain, build_eq within hclosed hvertices]
    exact hchain
  · intro j v hj
    exact ⟨_, _, hclosed.neighbors_eq (hlast v (VertexSet.mem_iff_getElem?.mpr ⟨j, hj⟩)), row_ofRows hj, hrow v⟩
  · rw [size_storage_ofRows, List.map_map]
    rfl
  · intro hwithin
    refine (build_eq _ hclosed hlast).trans (congrArg Except.ok (ofRows_congr fun v _ => VertexSet.ext_mem fun w => ?_))
    rw [VertexSet.mem_common, hrow, and_iff_left (nofun : none ≠ some w), mem_getLastD_iff hwithin]

/-- The cache of a graph with a loop and an edge in one direction only, narrowed twice, with another reuse each time. -/
theorem buildChain_rows_twice :
    ∃ g cache, HostGraph.ofAdjacency #[#[0, 1, 2], #[0, 2], #[1]] = .ok g ∧
      buildChain g (.upTo 3) (.upTo 5) [⟨.zero, #[5], .upTo 2, .upTo 3⟩, ⟨⟨0x4049000000000000⟩, #[], .upTo 1, .upTo 2⟩]
        = .ok cache ∧
      cache.vertices = .upTo 1 ∧
      (∀ j v : Nat, cache.vertices.members[j]? = some v →
        ∃ neighbors row, g.neighbors v = .ok neighbors ∧ cache.row j = .ok row ∧
          ∀ w, w ∈ row ↔ w ∈ neighbors ∧ ∀ set ∈ [VertexSet.upTo 5, .upTo 3, .upTo 2], w ∈ set) ∧
      (∃ made, (List.range cache.vertices.size).mapM cache.row = .ok made ∧
        cache.storage.size = (made.map VertexSet.size).sum) ∧
      build g cache.vertices (.upTo 2) = .ok cache := by
  have hg : HostGraph.ofAdjacency #[#[0, 1, 2], #[0, 2], #[1]] = .ok ⟨#[0, 3, 5, 6], #[0, 1, 2, 0, 2, 1], 3⟩ := by
    decide +kernel
  have hvertices : ∀ v ∈ VertexSet.upTo 3, v < 3 := by decide
  have hnested : (VertexSet.upTo 3 :: [(⟨.zero, #[5], .upTo 2, .upTo 3⟩ : Narrowing),
      ⟨⟨0x4049000000000000⟩, #[], .upTo 1, .upTo 2⟩].map Narrowing.vertices).IsChain (· ⊇ ·) := by decide
  obtain ⟨cache, hcache, hvertices, hrows, hstored, hdirect⟩ := buildChain_rows hg (.upTo 5) hvertices hnested
  exact ⟨_, cache, hg, hcache, hvertices, hrows, hstored, hdirect (by decide)⟩

end AdjacencyCache

end PatternCount
