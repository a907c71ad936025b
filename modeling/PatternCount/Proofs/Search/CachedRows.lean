import PatternCount.Proofs.Plan.Readings
import PatternCount.Proofs.Search.Reached

/-!
# A cache that is there is used

A row that is missing from a cache is looked up in the graph instead, so that a miss would go unnoticed. There is none:
wherever the search gets, and whatever row of a cache the next level refers to, the row is found if the level with the
cache has built one, and is then the part of the row in the graph that lies in the candidates of that level
(`cachedRow?_of_reached`). It makes no difference whether the cache was built from the graph or narrowed from others.

Which caches are there is up to the policy. Under `always` the levels that plan one have one
(`Reached.cache_isSome`), and a level that has candidates is entered (`Reached.exists_enter`).
-/

namespace PatternCount.Search

variable {s : Search} {k : Nat} {frames : List Frame}

/-! ## Where the search gets -/

/-- A level whose candidates have been made is entered with each of them. -/
theorem Reached.exists_enter (hg : s.graph.Closed) (h : s.Reached k frames) {level : Level} {info : LevelInfo}
    (hlevel : s.plan.levels[k]? = some level) (hinfo : s.plan.info[k]? = some info) (hinner : k + 1 < s.plan.depth)
    {mine made : Buffers} (hmade : s.evaluate frames level.candidates mine = .ok made) :
    ∃ candidates positions cache, candidates.members = made.set ∧ ∀ i v : Nat, made.set[i]? = some v →
      s.Reached (k + 1) (⟨k, v, i, candidates, cache, positions⟩ :: frames) := by
  obtain ⟨hk, bound, hentered⟩ := h.entered hg
  obtain ⟨candidates, made', positions, cache, hmade', hset, -, hpositions, hcache, -⟩ :=
    enter_eq_ok hentered hg (s.plan.isValid.inner k level hk hlevel) hinfo
      (fun _ => (Level.mem_meaning hlevel).symm) mine
  obtain rfl := Except.ok.inj (hmade.symm.trans hmade')
  refine ⟨candidates, positions.toArray, cache, hset.symm, fun i v hv => ?_⟩
  have hcandidates : VertexSet.ofArray made.set = .ok candidates := by
    rw [hset, VertexSet.ofArray_members]
  exact h.enter hlevel hinfo hinner hmade hcandidates hpositions hcache (hset ▸ hv)

theorem isSome_of_buildCache? {candidates : VertexSet} {level : Level} {info : LevelInfo}
    {positions : Array (Array Nat)} {cache : Option AdjacencyCache} (hpolicy : s.policy = .always)
    (hplanned : level.cache.isSome = true)
    (hcache : s.buildCache? frames candidates level info positions = .ok cache) : cache.isSome = true := by
  obtain ⟨spec, hspec⟩ := Option.isSome_iff_exists.mp hplanned
  have hwanted : ∀ reuse, s.wantsCache reuse = true := fun reuse => by rw [wantsCache, hpolicy]
  have hmade : ∀ (made : Except Fault AdjacencyCache) (reuse : Binary64),
      (made >>= fun built => pure (some (built.withReuse reuse))) = .ok cache → cache.isSome = true := by
    intro made reuse h
    obtain ⟨built, -, hbuilt⟩ := bind_eq_ok_iff.mp h
    rw [← Except.ok.inj hbuilt]
    rfl
  simp only [buildCache?, hspec, hwanted, if_true] at hcache
  cases hparent : spec.parent with
  | none =>
      rw [hparent] at hcache
      exact hmade _ _ hcache
  | some parent =>
      rw [hparent] at hcache
      obtain ⟨derived, -, hrest⟩ := bind_eq_ok_iff.mp hcache
      cases derived with
      | none => exact hmade _ _ hrest
      | some cache => exact hmade (pure cache) _ hrest

/-- Under the policy `always` every level that plans a cache has one. -/
theorem Reached.cache_isSome (h : s.Reached k frames) (hpolicy : s.policy = .always) {c : Nat} {level : Level}
    (hlevel : s.plan.levels[c]? = some level) (hplanned : level.cache.isSome = true) {holder : Frame}
    (hholder : frameAt frames c = .ok holder) : holder.cache.isSome = true := by
  induction h with
  | @root v hv =>
      have hzero : c ≠ 0 := by
        rintro rfl
        rw [s.plan.isValid.root] at hlevel
        obtain rfl := Option.some.inj hlevel
        cases hplanned
      have hroot : (s.rootFrame v).level = 0 := rfl
      rw [frameAt, hroot, if_neg (Nat.not_lt_zero c), if_neg hzero.symm] at hholder
      cases hholder
  | @enter k frames level' _ _ _ candidates positions cache i v _ hlevel' _ _ _ _ _ hcache _ ih =>
      rw [frameAt] at hholder
      split at hholder
      · exact ih hholder
      · split at hholder
        · next heq =>
            obtain rfl : k = c := heq
            obtain rfl := Option.some.inj (hlevel.symm.trans hlevel')
            obtain rfl := Except.ok.inj hholder
            exact isSome_of_buildCache? hpolicy hplanned hcache
        · cases hholder

/-! ## What is read -/

/-- Wherever the search gets, an operand of the next level that is a row of a cache is read from the cache if that was
built: it is the part of the row of the vertex in the graph that lies in the candidates over which the cache was built,
whatever that was built from. Nothing is found only if there is no cache. -/
theorem cachedRow?_of_reached {rows : Array (Array Nat)} (hg : HostGraph.ofAdjacency rows = .ok s.graph)
    (hreached : s.Reached k frames) {level : Level} (hlevel : s.plan.levels[k]? = some level) {op : SetOp}
    (hop : op ∈ level.candidates.ops) {c p : Nat} (hoperand : op.operand = .cached c p) :
    ∃ holder frame row part, frameAt frames c = .ok holder ∧ frameAt frames p = .ok frame ∧
      s.graph.neighbors frame.vertex = .ok row ∧ part.toList = row.toList.filter (· ∈ holder.candidates) ∧
      s.cachedRow? holder frame c p = .ok (holder.cache.map fun _ => part) := by
  have hclosed := HostGraph.closed_of_ofAdjacency hg
  obtain ⟨-, bound, hentered⟩ := hreached.entered hclosed
  obtain ⟨hp, ⟨-, hcp, -⟩, -⟩ := s.plan.isValid.reading hlevel hop hoperand
  have hc : c < k := Nat.lt_of_le_of_lt hcp hp
  obtain ⟨holder, hholder, hfits⟩ := hentered.fits c hc
  obtain ⟨frame, hframe, hfits'⟩ := hentered.fits p hp
  obtain ⟨row, hrow, hmem⟩ := hentered.neighbors hclosed hp
  obtain ⟨row?, hrow?, hfound, hmissing⟩ := cachedRow?_eq_ok hentered hc hp hholder hframe
  have hasked : p ≠ c → c ∈ LevelInfo.lookupsAt s.plan.info p := fun hne => by
    rw [s.plan.info_eq]
    exact s.plan.isValid.mem_lookupsAt hlevel hop hoperand hne
  have hcommon : (row.common holder.candidates none).toList = row.toList.filter (· ∈ holder.candidates) :=
    List.filter_congr fun v _ => decide_eq_decide.mpr (and_iff_left nofun)
  refine ⟨holder, frame, row, row.common holder.candidates none, hholder, hframe, hfits'.vertex ▸ hrow, hcommon, ?_⟩
  rw [hrow?]
  cases row? with
  | none =>
      rcases hmissing rfl with hnone | ⟨hne, hnot⟩
      · rw [hnone]
        rfl
      · exact (hnot (hasked hne)).elim
  | some part =>
      obtain ⟨hcache, hpart⟩ := hfound part rfl
      obtain ⟨cache, hcache⟩ := Option.ne_none_iff_exists'.mp hcache
      have hsame : part = row.common holder.candidates none := VertexSet.ext_mem fun v => by
        rw [hpart, VertexSet.mem_common, hmem, hfits.candidates]
        exact and_congr_right fun _ => (and_iff_left nofun).symm
      rw [hcache, hsame]
      rfl

/-- Three levels in, with a cache and one that is narrowed from it: a row of the wider cache, found by the positions that
were looked up, and a row of the narrower one. -/
theorem cachedRow?_of_reached_narrowed :
    ∃ (s : Search) (frames : List Frame) (outer inner : Frame) (row wide narrow : VertexSet),
      HostGraph.ofAdjacency #[#[0, 1, 2], #[0, 2], #[1]] = .ok s.graph ∧ s.policy = .always ∧
      s.plan.levels[2]? = some ⟨(SetExpr.ofBase (.candidates 1)).excluding 1, some ⟨some 1⟩⟩ ∧ s.Reached 3 frames ∧
      frameAt frames 1 = .ok outer ∧ frameAt frames 2 = .ok inner ∧ s.graph.neighbors inner.vertex = .ok row ∧
      (wide.toList = row.toList.filter (· ∈ outer.candidates) ∧ s.cachedRow? outer inner 1 2 = .ok (some wide)) ∧
      narrow.toList = row.toList.filter (· ∈ inner.candidates) ∧ s.cachedRow? inner inner 2 2 = .ok (some narrow) := by
  let e : SetExpr := ((SetExpr.ofBase (.candidates 2)).intersect (.cached 1 2)).subtract (.cached 2 2)
  let levels : Array Level := #[⟨.ofBase .all, none⟩, ⟨.ofBase (.adjacency 0), some ⟨none⟩⟩,
    ⟨(SetExpr.ofBase (.candidates 1)).excluding 1, some ⟨some 1⟩⟩, ⟨e, none⟩]
  let s : Search :=
    { graph := ⟨#[0, 3, 5, 6], #[0, 1, 2, 0, 2, 1], 3⟩
      plan := ⟨levels, LevelInfo.ofLevels levels, by decide +kernel, rfl⟩
      vertices := .upTo 3
      threshold := 1
      sharing := .singly
      policy := .always
      vertices_eq := rfl }
  have hg : HostGraph.ofAdjacency #[#[0, 1, 2], #[0, 2], #[1]] = .ok s.graph := by decide +kernel
  have hclosed := HostGraph.closed_of_ofAdjacency hg
  have hroot : s.Reached 1 [s.rootFrame 0] := .root (by decide)
  have hmade : s.evaluate [s.rootFrame 0] (.ofBase (.adjacency 0)) .empty = .ok ⟨#[0, 1, 2], #[], #[], #[]⟩ := by
    decide +kernel
  obtain ⟨candidates, positions, cache, hcandidates, henter⟩ :=
    hroot.exists_enter hclosed rfl rfl (by decide) hmade
  obtain rfl : candidates = .upTo 3 := VertexSet.ext_mem fun v => by
    rw [← VertexSet.mem_members, hcandidates, ← VertexSet.mem_members]
    exact Iff.of_eq (congrArg (v ∈ ·) (show #[0, 1, 2] = Array.range 3 by decide))
  -- The cache and the positions of the second frame are not looked at here.
  have hmade' : s.evaluate [⟨1, 1, 1, .upTo 3, cache, positions⟩, s.rootFrame 0]
      ((SetExpr.ofBase (.candidates 1)).excluding 1) .empty = .ok ⟨#[0, 2], #[], #[1], #[]⟩ := by with_unfolding_all rfl
  obtain ⟨candidates', positions', cache', -, henter'⟩ :=
    (henter 1 1 rfl).exists_enter hclosed rfl rfl (by decide) hmade'
  have hreached := henter' 0 0 rfl
  have hlast : s.plan.levels[3]? = some ⟨e, none⟩ := rfl
  have hintersect : .intersect (.cached 1 2) ∈ e.ops := by decide
  have hsubtract : .subtract (.cached 2 2) ∈ e.ops := by decide
  obtain ⟨outer, inner, row, wide, houter, hinner, hrow, hwide, hreadWide⟩ :=
    cachedRow?_of_reached hg hreached hlast hintersect rfl
  obtain ⟨inner', frame, row', narrow, hinner', hframe, hrow', hnarrow, hreadNarrow⟩ :=
    cachedRow?_of_reached hg hreached hlast hsubtract rfl
  obtain rfl := Except.ok.inj (hinner.symm.trans hinner')
  obtain rfl := Except.ok.inj (hinner.symm.trans hframe)
  obtain rfl := Except.ok.inj (hrow.symm.trans hrow')
  obtain ⟨cacheOuter, hcacheOuter⟩ := Option.isSome_iff_exists.mp (hreached.cache_isSome rfl (c := 1) rfl rfl houter)
  obtain ⟨cacheInner, hcacheInner⟩ := Option.isSome_iff_exists.mp (hreached.cache_isSome rfl (c := 2) rfl rfl hinner)
  rw [hcacheOuter] at hreadWide
  rw [hcacheInner] at hreadNarrow
  exact ⟨s, _, outer, inner, row, wide, narrow, hg, rfl, rfl, hreached, houter, hinner, hrow, ⟨hwide, hreadWide⟩,
    hnarrow, hreadNarrow⟩

end PatternCount.Search
