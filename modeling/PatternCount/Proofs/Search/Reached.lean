import PatternCount.Proofs.Search.Count

/-!
# Making and counting agree wherever the search gets

`Search.Reached s k frames` says that a search can have bound the positions below `k` with these frames: it begins at
some vertex, and enters a level by what `Search.descend` does there, with whatever buffers, and goes on to one of the
candidates. Reached frames are as `Entered` says (`Reached.entered`, by induction on the levels entered). So a level
that comes next has all it refers to, and making its candidates and counting them are two ways to the same list
(`evaluate_countCandidates`).
-/

namespace PatternCount.Search

/-- The frames that a search can have for the positions below `k`. -/
inductive Reached (s : Search) : (k : Nat) → (frames : List Frame) → Prop
  | root {v : Nat} (hv : v < s.graph.vertexCount) : Reached s 1 [s.rootFrame v]
  | enter {k : Nat} {frames : List Frame} {level : Level} {info : LevelInfo} {mine made : Buffers}
      {candidates : VertexSet} {positions : List (Array Nat)} {cache : Option AdjacencyCache} {i v : Nat}
      (outer : Reached s k frames) (hlevel : s.plan.levels[k]? = some level) (hinfo : s.plan.info[k]? = some info)
      (hinner : k + 1 < s.plan.depth) (hmade : s.evaluate frames level.candidates mine = .ok made)
      (hcandidates : VertexSet.ofArray made.set = .ok candidates)
      (hpositions : lookUp frames candidates info.lookups made.positions.toList = .ok positions)
      (hcache : s.buildCache? frames candidates level info positions.toArray = .ok cache)
      (hv : candidates.members[i]? = some v) :
      Reached s (k + 1) (⟨k, v, i, candidates, cache, positions.toArray⟩ :: frames)

variable {s : Search} {k : Nat} {frames : List Frame}

theorem Reached.entered (hg : s.graph.Closed) (h : s.Reached k frames) :
    1 ≤ k ∧ ∃ bound, s.Entered bound k frames := by
  induction h with
  | root hv => exact ⟨Nat.le_refl 1, Function.update (fun _ => 0) 0 _, Entered.root hv⟩
  | @enter k frames level info mine made candidates positions cache i v _ hlevel hinfo _ hmade hcandidates
      hpositions hcache hv ih =>
      obtain ⟨hk, bound, hentered⟩ := ih
      -- Each call has one outcome, and `enter_eq_ok` says which.
      obtain ⟨candidates', made', positions', cache', hmade', hset, -, hpositions', hcache', hpush⟩ :=
        enter_eq_ok hentered hg (s.plan.isValid.inner k level hk hlevel) hinfo
          (fun _ => (Level.mem_meaning hlevel).symm) mine
      obtain rfl := Except.ok.inj (hmade.symm.trans hmade')
      rw [hset, VertexSet.ofArray_members] at hcandidates
      obtain rfl := Except.ok.inj hcandidates
      obtain rfl := Except.ok.inj (hpositions.symm.trans hpositions')
      obtain rfl := Except.ok.inj (hcache.symm.trans hcache')
      exact ⟨Nat.le_succ_of_le hk, _, hpush i v hv⟩

/-- Wherever the search gets, the sets and the vertices that the next level refers to are at hand. The set that is made
of them is the ascending list of what survives, whatever the buffers hold before, and what is counted is its length. -/
theorem evaluate_countCandidates {rows : Array (Array Nat)} (hg : HostGraph.ofAdjacency rows = .ok s.graph)
    (hreached : s.Reached k frames) {level : Level} (hlevel : s.plan.levels[k]? = some level) :
    ∃ sets bound, s.Resolves frames level.candidates sets bound ∧
      Ascending (level.candidates.survivors sets bound) ∧ ∀ b : Buffers,
        (∃ b', s.evaluate frames level.candidates b = .ok b' ∧
          b'.set.toList = level.candidates.survivors sets bound) ∧
        ∃ b', s.countCandidates frames level.candidates b
          = .ok ((level.candidates.survivors sets bound).length, b') := by
  have hclosed := HostGraph.closed_of_ofAdjacency hg
  obtain ⟨hk, bound, hentered⟩ := hreached.entered hclosed
  obtain ⟨sets, hresolves, -⟩ := hentered.resolves hclosed (s.plan.isValid.inner k level hk hlevel)
  exact ⟨sets, bound, hresolves, level.candidates.ascending_survivors, fun b =>
    ⟨hresolves.evaluate_eq_survivors b, hresolves.countCandidates_eq_survivors b⟩⟩

/-- Two levels in, with two operations and three exclusions of two vertices. -/
theorem evaluate_countCandidates_loop :
    ∃ (s : Search) (frames : List Frame) (sets : SetRef → VertexSet) (bound : Nat → Nat) (e : SetExpr),
      e = ⟨.candidates 1, [.intersect (.adjacency 1), .subtract (.adjacency 0)], [], [], [0, 1, 0]⟩ ∧
      s.Reached 2 frames ∧ s.Resolves frames e sets bound ∧ Ascending (e.survivors sets bound) ∧
      ∀ b : Buffers,
        (∃ b', s.evaluate frames e b = .ok b' ∧ b'.set.toList = e.survivors sets bound) ∧
        ∃ b', s.countCandidates frames e b = .ok ((e.survivors sets bound).length, b') := by
  let e : SetExpr := ⟨.candidates 1, [.intersect (.adjacency 1), .subtract (.adjacency 0)], [], [], [0, 1, 0]⟩
  let levels : Array Level := #[⟨.ofBase .all, none⟩, ⟨.ofBase (.adjacency 0), none⟩, ⟨e, none⟩]
  let s : Search :=
    { graph := ⟨#[0, 3, 5, 6], #[0, 1, 2, 0, 2, 1], 3⟩
      plan := ⟨levels, LevelInfo.ofLevels levels, by decide +kernel, rfl⟩
      vertices := .upTo 3
      threshold := 1
      sharing := .singly
      policy := .never
      vertices_eq := rfl }
  have hg : HostGraph.ofAdjacency #[#[0, 1, 2], #[0, 2], #[1]] = .ok s.graph := by decide +kernel
  have hroot : s.Reached 1 [s.rootFrame 0] := .root (by decide)
  have hinner : s.Reached 2 [⟨1, 1, 1, .upTo 3, none, #[]⟩, s.rootFrame 0] := by
    have hmade : s.evaluate [s.rootFrame 0] (.ofBase (.adjacency 0)) .empty = .ok ⟨#[0, 1, 2], #[], #[], #[]⟩ := by
      decide +kernel
    exact .enter hroot rfl rfl (by decide) hmade (VertexSet.ofArray_members (.upTo 3)) rfl rfl rfl
  have hlevel : s.plan.levels[2]? = some ⟨e, none⟩ := rfl
  obtain ⟨sets, bound, h⟩ := evaluate_countCandidates hg hinner hlevel
  exact ⟨s, _, sets, bound, e, rfl, hinner, h⟩

end PatternCount.Search
