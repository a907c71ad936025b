import PatternCount.Proofs.Search.Frames

/-!
# The sets that a level refers to

Before a level is made, the references of its expression are resolved to sets. On frames that are as `Entered` says
this succeeds, and yields what the plan means.

The step with content is `resolve_eq_ok`. A cached row is not the row of the graph, it is the part of it that
lies in the candidates of the level with the cache; but it is only compared with sets inside these candidates,
as the base of the level is on their side of the base chain. So the set that is read may stand for the row of
the graph wherever it is asked about a vertex in the base.
-/

namespace PatternCount.Search

variable {s : Search} {bound : Nat → Nat} {k : Nat} {frames : List Frame}

/-! ## Sets that expressions read -/

/-- The rows of the bound vertices can be read, and their members are what is joined to the vertex. -/
theorem Entered.neighbors (h : s.Entered bound k frames) (hg : s.graph.Closed) {p : Nat} (hp : p < k) :
    ∃ row, s.graph.neighbors (bound p) = .ok row ∧ ∀ v, v ∈ row ↔ s.graph.Edge (bound p) v := by
  obtain ⟨row, hrow, -⟩ := hg (bound p) (h.lt_vertexCount hg hp)
  exact ⟨row, hrow, fun v => (HostGraph.edge_iff_mem hrow).symm⟩

/-- The position of a vertex in a cache is missing only if the cache is not asked for this vertex. -/
theorem cachedPosition?_eq_ok (h : s.Entered bound k frames) {c p : Nat} (hp : p < k)
    {holder frame : Frame} {cache : AdjacencyCache} (hholder : frameAt frames c = .ok holder)
    (hframe : frameAt frames p = .ok frame) (hcache : holder.cache = some cache)
    (hcover : cache.vertices = holder.candidates) (hfits : s.Fits bound p frame) :
    ∃ position?, s.cachedPosition? frame c p = .ok position?
      ∧ (∀ i, position? = some i → cache.vertices.members[i]? = some (bound p))
      ∧ (position? = none → p ≠ c ∧ c ∉ LevelInfo.lookupsAt s.plan.info p) := by
  by_cases hpc : p = c
  · obtain rfl := hpc
    obtain rfl := Except.ok.inj (hholder.symm.trans hframe)
    refine ⟨some holder.index, by rw [cachedPosition?, if_pos rfl], ?_,
      fun hnone => absurd hnone (Option.some_ne_none _)⟩
    intro i hi
    obtain rfl := Option.some.inj hi
    rw [hcover, hfits.index, hfits.vertex]
  · have hsize : p < s.plan.info.size := by
      rw [s.plan.info_eq, LevelInfo.size_ofLevels]
      exact hfits.lt_depth
    have hinfo : s.plan.info[p]? = some s.plan.info[p] := Array.getElem?_eq_getElem hsize
    have hlookups : LevelInfo.lookupsAt s.plan.info p = s.plan.info[p].lookups := by
      rw [LevelInfo.lookupsAt, hinfo]
    cases hslot : s.plan.info[p].lookups.idxOf? c with
    | none =>
        refine ⟨none, ?_, fun _ hsome => absurd hsome.symm (Option.some_ne_none _),
          fun _ => ⟨hpc, hlookups ▸ List.idxOf?_eq_none_iff.mp hslot⟩⟩
        simp only [cachedPosition?, if_neg hpc, Fault.index, hinfo, hslot, bind, Except.bind, pure, Except.pure,
          Option.bind]
    | some slot =>
        have hlookup : (LevelInfo.lookupsAt s.plan.info p)[slot]? = some c := by
          obtain ⟨hlt, heq, -⟩ := List.idxOf?_eq_some_iff.mp hslot
          rw [hlookups]
          exact List.getElem?_eq_some_iff.mpr ⟨hlt, by simpa using heq⟩
        obtain ⟨found, hfound, haddress⟩ :=
          h.located p hp frame hframe slot c holder cache hlookup hholder hcache
        obtain ⟨j, hj, hvertex⟩ := haddress.position _ _ hfits.index
        refine ⟨some j, ?_, ?_, fun hnone => absurd hnone (Option.some_ne_none _)⟩
        · simp only [cachedPosition?, if_neg hpc, Fault.index, hinfo, hslot, hfound, hj, bind, Except.bind, pure,
            Except.pure, Option.bind]
        · intro i hi
          obtain rfl := Option.some.inj hi
          rw [hvertex, hfits.vertex]

/-- A cached row has the members of the row in the graph that are candidates of the level with the cache. It is missing
only if the cache is, or is not asked for the vertex. -/
theorem cachedRow?_eq_ok (h : s.Entered bound k frames) {c p : Nat} (hc : c < k) (hp : p < k)
    {holder frame : Frame} (hholder : frameAt frames c = .ok holder)
    (hframe : frameAt frames p = .ok frame) :
    ∃ row?, s.cachedRow? holder frame c p = .ok row?
      ∧ (∀ row, row? = some row → holder.cache ≠ none ∧
        ∀ v, v ∈ row ↔ s.graph.Edge (bound p) v ∧ v ∈ s.meaning bound c)
      ∧ (row? = none → holder.cache = none ∨ p ≠ c ∧ c ∉ LevelInfo.lookupsAt s.plan.info p) := by
  obtain ⟨holder', hholder', hfits⟩ := h.fits c hc
  obtain rfl := Except.ok.inj (hholder.symm.trans hholder')
  obtain ⟨frame', hframe', hfits'⟩ := h.fits p hp
  obtain rfl := Except.ok.inj (hframe.symm.trans hframe')
  cases hcache : holder.cache with
  | none => exact ⟨none, by rw [cachedRow?, hcache]; rfl, nofun, fun _ => .inl rfl⟩
  | some cache =>
      have hcover := hfits.cache cache hcache
      obtain ⟨position?, hposition, hvertex, hmissing⟩ :=
        cachedPosition?_eq_ok h hp hholder hframe hcache hcover.vertices hfits'
      cases position? with
      | none =>
          refine ⟨none, ?_, nofun, fun _ => .inr (hmissing rfl)⟩
          simp only [cachedRow?, hcache, hposition, bind, Except.bind, pure, Except.pure]
      | some position =>
          obtain ⟨row, hrow, hmem⟩ := hcover.holds position _ (hvertex position rfl)
          refine ⟨some row, ?_, ?_, nofun⟩
          · simp only [cachedRow?, hcache, hposition, hrow, bind, Except.bind, pure, Except.pure]
          intro row' hsome
          obtain rfl := Option.some.inj hsome
          exact ⟨nofun, fun v => (hmem v).trans (and_congr_right fun _ => hfits.candidates v)⟩

theorem resolve_adjacency (h : s.Entered bound k frames) (hg : s.graph.Closed) {p : Nat} (hp : p < k) :
    ∃ set, s.resolve frames (.adjacency p) = .ok set ∧ ∀ v, v ∈ set ↔ s.graph.Edge (bound p) v := by
  obtain ⟨frame, hframe, hfits⟩ := h.fits p hp
  obtain ⟨row, hrow, hmem⟩ := h.neighbors hg hp
  refine ⟨row, ?_, hmem⟩
  rw [resolve, hframe]
  show s.graph.neighbors frame.vertex = _
  rw [hfits.vertex, hrow]

theorem resolve_candidates (h : s.Entered bound k frames) {l : Nat} (hl : l < k) :
    ∃ set, s.resolve frames (.candidates l) = .ok set ∧ ∀ v, v ∈ set ↔ v ∈ s.earlier bound k l := by
  obtain ⟨frame, hframe, hfits⟩ := h.fits l hl
  refine ⟨frame.candidates, by rw [resolve, hframe]; rfl, ?_⟩
  intro v
  rw [hfits.candidates]
  exact ⟨fun hv => ⟨hl, hv⟩, fun ⟨_, hv⟩ => hv⟩

/-- A reference is resolved to a set that agrees with its meaning as far as the base of the level reaches. -/
theorem resolve_eq_ok (h : s.Entered bound k frames) (hg : s.graph.Closed) {base r : SetRef}
    (hr : Level.GoodRef s.plan.levels k base r) :
    ∃ set, s.resolve frames r = .ok set ∧
      ∀ v ∈ base.meaning s.graph bound (s.earlier bound k),
        v ∈ set ↔ v ∈ r.meaning s.graph bound (s.earlier bound k) := by
  cases r with
  | all => exact hr.elim
  | adjacency p =>
      obtain ⟨set, hset, hmem⟩ := resolve_adjacency h hg hr
      exact ⟨set, hset, fun v _ => hmem v⟩
  | candidates l =>
      obtain ⟨set, hset, hmem⟩ := resolve_candidates h hr
      exact ⟨set, hset, fun v _ => hmem v⟩
  | cached c p =>
      obtain ⟨hp, ⟨-, hcp, -⟩, -, q, rfl, hq⟩ := hr
      obtain ⟨frame, hframe, hfits⟩ := h.fits p hp
      obtain ⟨holder, hholder, -⟩ := h.fits c (Nat.lt_of_le_of_lt hcp hp)
      obtain ⟨row?, hrow?, hcached, -⟩ :=
        cachedRow?_eq_ok h (Nat.lt_of_le_of_lt hcp hp) hp hholder hframe
      cases row? with
      | some row =>
          refine ⟨row, ?_, ?_⟩
          · simp only [resolve, hframe, hholder, hrow?, bind, Except.bind, pure, Except.pure]
          intro v hv
          rw [(hcached row rfl).2 v]
          -- The base lies within the candidates of the level with the cache.
          exact and_iff_left (Level.meaning_subset hq (Level.mem_earlier.mp hv).2)
      | none =>
          obtain ⟨row, hrow, hmem⟩ := h.neighbors hg hp
          refine ⟨row, ?_, fun v _ => hmem v⟩
          simp only [resolve, hframe, hholder, hrow?, hfits.vertex, hrow, bind, Except.bind]

theorem resolve_base_eq_ok (h : s.Entered bound k frames) (hg : s.graph.Closed) {level : Level}
    (hlevel : Level.Good s.plan.levels k level) :
    ∃ set, s.resolve frames level.candidates.base = .ok set ∧
      ∀ v, v ∈ set ↔ v ∈ level.candidates.base.meaning s.graph bound (s.earlier bound k) := by
  have hgood := hlevel.refs _ List.mem_cons_self
  rcases hlevel.base with ⟨p, hbase⟩ | ⟨q, hbase⟩
  · rw [hbase] at hgood ⊢
    exact resolve_adjacency h hg hgood
  · rw [hbase] at hgood ⊢
    exact resolve_candidates h hgood

end PatternCount.Search
