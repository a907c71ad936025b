import Mathlib.Algebra.Order.BigOperators.Group.List
import PatternCount.Proofs.AdjacencyCache.Positions
import PatternCount.Proofs.Plan.Tuples
import PatternCount.Proofs.Search.Candidates

/-!
# The search counts the tuples of its plan

`Search.countUnit` counts, for a unit of work, the tuples that carry out the plan and begin in the unit. Whatever
the units are that cover all vertices, their counts add up to the number of tuples (`countUnits_of_closed`): neither
the policy for caches nor the threshold for sharing out a level, nor the jobs that it is split into, nor the
buffers that a worker comes with have a part in it, and no call fails.

- **preparation** (`lookUp_eq_ok`, `buildCache?_eq_ok`): what a level prepares for the levels further in is as
  `Entered` wants it, whether or not it is made.
- **descent** (`descend_eq_ok`): by induction on the levels that are left, what is counted below the vertices
  bound so far is the number of their completions. A level that is shared out and one that is walked differ in
  their buffers only (`descend_inner`).
-/

namespace PatternCount.Search

variable {s : Search} {bound : Nat → Nat} {k : Nat} {frames : List Frame}

/-! ## What is prepared for the levels further in -/

section Preparation

variable {candidates : VertexSet}

/-- The candidates are found in every cache that they are looked up in. -/
theorem lookUp_eq_ok (h : s.Entered bound k frames) (hmem : ∀ v, v ∈ candidates ↔ v ∈ s.meaning bound k) :
    ∀ (lookups : List Nat) (old : List (Array Nat)),
      (∀ c ∈ lookups, c < k ∧ c ∈ Level.baseChain s.plan.levels k) →
      ∃ made, lookUp frames candidates lookups old = .ok made ∧
        ∀ (slot c : Nat) holder cache, lookups[slot]? = some c → frameAt frames c = .ok holder →
          holder.cache = some cache → ∃ found, made[slot]? = some found ∧ cache.Addresses found candidates
  | [], _, _ => ⟨[], rfl, nofun⟩
  | c :: rest, old, hlookups => by
      obtain ⟨hc, hchain⟩ := hlookups c List.mem_cons_self
      obtain ⟨holder, hholder, hfits⟩ := h.fits c hc
      obtain ⟨made, hmade, hrest⟩ := lookUp_eq_ok h hmem rest old.tail
        fun d hd => hlookups d (List.mem_cons_of_mem _ hd)
      obtain ⟨found, hstep, haddress⟩ : ∃ found,
          lookUp frames candidates (c :: rest) old = .ok (found :: made) ∧
            ∀ cache, holder.cache = some cache → cache.Addresses found candidates := by
        cases hcache : holder.cache with
        | none =>
            refine ⟨(old.headD #[]).take 0, ?_, nofun⟩
            simp only [lookUp, hholder, hcache, hmade, bind, Except.bind, pure, Except.pure]
        | some cache =>
            have hcover := hfits.cache cache hcache
            obtain ⟨found, hfound, hsize, hposition⟩ := cache.positionsInto_eq_ok candidates
              (fun v hv => by
                rw [hcover.vertices, hfits.candidates]
                exact Level.meaning_subset hchain ((hmem v).mp hv)) (old.headD #[])
            refine ⟨found, ?_, ?_⟩
            · simp only [lookUp, hholder, hcache, hfound, hmade, bind, Except.bind, pure, Except.pure]
            · intro cache' hcache'
              obtain rfl := Option.some.inj hcache'
              exact ⟨hsize, hposition⟩
      refine ⟨found :: made, hstep, ?_⟩
      intro slot d holder' cache hslot hholder' hcache
      cases slot with
      | zero =>
          obtain rfl := Option.some.inj hslot
          obtain rfl := Except.ok.inj (hholder.symm.trans hholder')
          exact ⟨found, rfl, haddress cache hcache⟩
      | succ slot => exact hrest slot d holder' cache hslot hholder' hcache

/-- A cache that is narrowed from that of an earlier level covers the candidates. -/
theorem deriveCache?_eq_ok (h : s.Entered bound k frames)
    (hmem : ∀ v, v ∈ candidates ↔ v ∈ s.meaning bound k) {info : LevelInfo} {positions : Array (Array Nat)}
    (hpositions : ∀ (slot c : Nat) holder cache, info.lookups[slot]? = some c →
      frameAt frames c = .ok holder → holder.cache = some cache →
        ∃ found, positions[slot]? = some found ∧ cache.Addresses found candidates)
    {parent : Nat} (hparent : Level.GoodParent s.plan.levels k parent) :
    ∃ cache?, deriveCache? frames candidates info positions parent = .ok cache? ∧
      ∀ cache, cache? = some cache → cache.Covers s.graph candidates := by
  obtain ⟨⟨hlt, -⟩, hchain⟩ := hparent
  obtain ⟨holder, hholder, hfits⟩ := h.fits parent hlt
  unfold deriveCache?
  simp only [hholder, bind, Except.bind]
  split
  · next outer slot houter hslot =>
      have hlookup : info.lookups[slot]? = some parent := by
        obtain ⟨hslt, heq, -⟩ := List.idxOf?_eq_some_iff.mp hslot
        exact List.getElem?_eq_some_iff.mpr ⟨hslt, by simpa using heq⟩
      obtain ⟨found, hfound, haddress⟩ := hpositions slot parent holder outer hlookup hholder houter
      have hcover := hfits.cache outer houter
      obtain ⟨cache, hcache, hvertices, -, hholds⟩ :=
        AdjacencyCache.derive_holds hcover.holds candidates haddress.size haddress.position
      refine ⟨some cache, by simp only [Fault.index, hfound, hcache, pure, Except.pure], ?_⟩
      intro cache' hcache'
      obtain rfl := Option.some.inj hcache'
      refine ⟨hvertices, ?_⟩
      intro i v hi
      obtain ⟨row, hrow, hrowMem⟩ := hholds i v hi
      refine ⟨row, hrow, fun w => (hrowMem w).trans ?_⟩
      refine and_assoc.trans (and_congr_right fun _ => and_iff_right_of_imp fun hw => ?_)
      exact (hfits.candidates w).mpr (Level.meaning_subset hchain ((hmem w).mp hw))
  · refine ⟨none, rfl, ?_⟩
    intro cache hcache
    cases hcache

theorem buildCache?_eq_ok (h : s.Entered bound k frames) (hg : s.graph.Closed)
    (hmem : ∀ v, v ∈ candidates ↔ v ∈ s.meaning bound k) {level : Level}
    (hlevel : Level.Good s.plan.levels k level) {info : LevelInfo} {positions : Array (Array Nat)}
    (hpositions : ∀ (slot c : Nat) holder cache, info.lookups[slot]? = some c →
      frameAt frames c = .ok holder → holder.cache = some cache →
        ∃ found, positions[slot]? = some found ∧ cache.Addresses found candidates) :
    ∃ cache?, s.buildCache? frames candidates level info positions = .ok cache? ∧
      ∀ cache, cache? = some cache → cache.Covers s.graph candidates := by
  cases hspec : level.cache with
  | none => exact ⟨none, by rw [buildCache?, hspec]; rfl, nofun⟩
  | some spec =>
      -- The estimate decides whether the cache is built, and its value goes no further.
      generalize hreuse : AdjacencyCache.estimateReuse candidates.size info.cacheDistances = reuse
      cases hwanted : s.wantsCache reuse with
      | false => exact ⟨none, by simp only [buildCache?, hspec, hreuse, hwanted]; rfl, nofun⟩
      | true =>
          obtain ⟨fresh, hfresh, hvertices, -, hholds⟩ := AdjacencyCache.build_holds candidates
            candidates hg fun v hv => Level.lt_of_mem_meaning s.plan.isValid hg ((hmem v).mp hv)
          obtain ⟨cache, hcache, hcover⟩ : ∃ cache : AdjacencyCache,
              s.buildCache? frames candidates level info positions
                = .ok (some (cache.withReuse (.ofFloat reuse))) ∧ cache.Covers s.graph candidates := by
            cases hparent : spec.parent with
            | none =>
                refine ⟨fresh, ?_, hvertices, hholds⟩
                simp only [buildCache?, hspec, hreuse, hwanted, hparent, hfresh, if_true, bind, Except.bind,
                  pure, Except.pure]
            | some parent =>
                obtain ⟨derived, hderived, hcover⟩ :=
                  deriveCache?_eq_ok h hmem hpositions ((hlevel.cache spec hspec).2 parent hparent)
                cases derived with
                | none =>
                    refine ⟨fresh, ?_, hvertices, hholds⟩
                    simp only [buildCache?, hspec, hreuse, hwanted, hparent, hderived, hfresh, if_true, bind,
                      Except.bind, pure, Except.pure]
                | some cache =>
                    refine ⟨cache, ?_, hcover cache rfl⟩
                    simp only [buildCache?, hspec, hreuse, hwanted, hparent, hderived, if_true, bind, Except.bind,
                      pure, Except.pure]
          refine ⟨_, hcache, ?_⟩
          intro cache' hcache'
          obtain rfl := Option.some.inj hcache'
          exact ⟨hcover.vertices, hcover.holds.withReuse _⟩

end Preparation

/-! ## Sums over candidates -/

/-- A sum that fits in a word is made, and whatever each count preserves of the buffers is preserved. -/
theorem sumOver_eq_ok {count : Nat → List Buffers → Except Fault (Nat × List Buffers)} {f : Nat → Nat}
    {P : List Buffers → Prop} : ∀ (is : List Nat) {total : Nat} (buffers : List Buffers),
    (∀ i ∈ is, ∀ b, P b → ∃ b', count i b = .ok (f i, b') ∧ P b') →
    total + (is.map f).sum < Word.size → P buffers →
    ∃ buffers', sumOver count is total buffers = .ok (total + (is.map f).sum, buffers') ∧ P buffers'
  | [], total, buffers, _, _, hb => ⟨buffers, rfl, hb⟩
  | i :: rest, total, buffers, hcount, hfits, hb => by
      obtain ⟨b', hstep, hb'⟩ := hcount i List.mem_cons_self buffers hb
      rw [List.map_cons, List.sum_cons, ← Nat.add_assoc] at hfits ⊢
      obtain ⟨buffers', hsum, hdone⟩ := sumOver_eq_ok (f := f) rest b'
        (fun j hj => hcount j (List.mem_cons_of_mem _ hj)) hfits hb'
      refine ⟨buffers', ?_, hdone⟩
      have hadd : Word.checkedAdd total (f i) = .ok (total + f i) :=
        if_pos (Nat.lt_of_le_of_lt (Nat.le_add_right _ _) hfits)
      simp only [sumOver, hstep, hadd, hsum, bind, Except.bind]

/-- However indices are split into jobs, and whatever the jobs begin with, the sum over all jobs is that over all
indices. -/
theorem sumJobs_eq_ok {count : Nat → List Buffers → Except Fault (Nat × List Buffers)} {f : Nat → Nat}
    {P : List Buffers → Prop} {buffers : List Buffers} (hb : P buffers) : ∀ (jobs : List (List Nat)) {total : Nat},
    (∀ i ∈ jobs.flatten, ∀ b, P b → ∃ b', count i b = .ok (f i, b') ∧ P b') →
    total + (jobs.flatten.map f).sum < Word.size →
    sumJobs count buffers jobs total = .ok (total + (jobs.flatten.map f).sum)
  | [], _, _, _ => rfl
  | job :: rest, total, hcount, hfits => by
      rw [List.flatten_cons, List.forall_mem_append] at hcount
      rw [List.flatten_cons, List.map_append, List.sum_append, ← Nat.add_assoc] at hfits ⊢
      obtain ⟨_, hjob, -⟩ := sumOver_eq_ok job buffers hcount.1 (show 0 + (job.map f).sum < Word.size by omega) hb
      rw [Nat.zero_add] at hjob
      have hadd : Word.checkedAdd total (job.map f).sum = .ok (total + (job.map f).sum) :=
        if_pos (Nat.lt_of_le_of_lt (Nat.le_add_right _ _) hfits)
      simp only [sumJobs, hjob, hadd, sumJobs_eq_ok hb rest hcount.2 hfits, bind, Except.bind]

/-! ## Descent -/

/-- The number of tuples that begin with the vertices bound below position `k`. -/
noncomputable def completionCount (s : Search) (bound : Nat → Nat) (k : Nat) : Nat :=
  (Level.completions s.plan.levels s.graph k bound).card

theorem completionCount_eq_sum (hk : k < s.plan.levels.size) {candidates : VertexSet}
    (hmem : ∀ v, v ∈ candidates ↔ v ∈ s.meaning bound k) :
    s.completionCount bound k
      = (candidates.toList.map fun v => s.completionCount (Function.update bound k v) (k + 1)).sum :=
  Level.card_completions s.plan.isValid hk hmem

theorem completionCount_le (hk : k < s.plan.levels.size) {candidates : VertexSet}
    (hmem : ∀ v, v ∈ candidates ↔ v ∈ s.meaning bound k) {v : Nat} (hv : v ∈ candidates) :
    s.completionCount (Function.update bound k v) (k + 1) ≤ s.completionCount bound k := by
  rw [completionCount_eq_sum hk hmem]
  exact List.le_sum_of_mem (List.mem_map_of_mem hv)

theorem completionCount_depth (h : ∀ p < s.plan.levels.size, bound p < s.graph.vertexCount) :
    s.completionCount bound s.plan.levels.size = 1 :=
  Level.card_completions_size h

/-- The levels that are left, with what each has to provide. -/
def Remaining (s : Search) (k : Nat) (inner : List (Level × LevelInfo)) : Prop :=
  k + inner.length = s.plan.levels.size ∧
    ∀ (i : Nat) level info, inner[i]? = some (level, info) →
      s.plan.levels[k + i]? = some level ∧ s.plan.info[k + i]? = some info

theorem Remaining.tail {x : Level × LevelInfo} {inner : List (Level × LevelInfo)}
    (h : s.Remaining k (x :: inner)) : s.Remaining (k + 1) inner := by
  obtain ⟨hlen, hget⟩ := h
  refine ⟨by rw [← hlen, List.length_cons]; omega, ?_⟩
  intro i level info hi
  rw [Nat.add_assoc, Nat.add_comm 1]
  exact hget (i + 1) level info hi

theorem Remaining.head {level : Level} {info : LevelInfo} {inner : List (Level × LevelInfo)}
    (h : s.Remaining k ((level, info) :: inner)) (hk : 1 ≤ k) :
    k < s.plan.levels.size ∧ Level.Good s.plan.levels k level ∧ s.plan.info[k]? = some info ∧
      ∀ bound v, v ∈ level.candidates.meaning s.graph bound (s.earlier bound k) ↔ v ∈ s.meaning bound k := by
  obtain ⟨hlevel, hinfo⟩ := h.2 0 level info rfl
  exact ⟨by have := h.1; rw [List.length_cons] at this; omega, s.plan.isValid.inner k level hk hlevel, hinfo,
    fun _ _ => (Level.mem_meaning hlevel).symm⟩

/-- The last level is counted without being walked. -/
theorem descend_last (h : s.Entered bound k frames) (hg : s.graph.Closed) (hk : 1 ≤ k)
    {level : Level} {info : LevelInfo} (hinner : s.Remaining k [(level, info)]) (mine : Buffers) :
    ∃ buffers, s.descend [(level, info)] k frames [mine] = .ok (s.completionCount bound k, buffers) ∧
      buffers.length = 1 := by
  obtain ⟨hlt, hgood, -, hmeaning⟩ := hinner.head hk
  have hsize : k + 1 = s.plan.levels.size := hinner.1
  obtain ⟨result, mine', hcount, hmem⟩ := countCandidates_eq_ok h hg hgood mine
  have hmem' : ∀ v, v ∈ result ↔ v ∈ s.meaning bound k := fun v => (hmem v).trans (hmeaning bound v)
  have hone : ∀ v ∈ result.toList, s.completionCount (Function.update bound k v) (k + 1) = 1 := fun v hv => by
    rw [hsize]
    refine completionCount_depth ?_
    intro p hp
    rcases Nat.lt_succ_iff_lt_or_eq.mp (hsize ▸ hp) with hp | rfl
    · rw [Function.update_of_ne (Nat.ne_of_lt hp)]
      exact h.lt_vertexCount hg hp
    · rw [Function.update_self]
      exact Level.lt_of_mem_meaning s.plan.isValid hg ((hmem' v).mp (VertexSet.mem_toList.mp hv))
  have htotal : s.completionCount bound k = result.size := by
    rw [completionCount_eq_sum hlt hmem', List.map_congr_left hone, List.map_const', List.sum_replicate_nat,
      Nat.mul_one, VertexSet.length_toList]
  exact ⟨[mine'], by simp only [descend, hcount, htotal, bind, Except.bind, pure, Except.pure], rfl⟩

theorem enter_eq_ok (h : s.Entered bound k frames) (hg : s.graph.Closed) {level : Level} {info : LevelInfo}
    (hgood : Level.Good s.plan.levels k level) (hinfo : s.plan.info[k]? = some info)
    (hmeaning : ∀ v, v ∈ level.candidates.meaning s.graph bound (s.earlier bound k) ↔ v ∈ s.meaning bound k)
    (mine : Buffers) :
    ∃ (candidates : VertexSet) (mine' : Buffers) (made : List (Array Nat)) (cache? : Option AdjacencyCache),
      s.evaluate frames level.candidates mine = .ok mine' ∧ mine'.set = candidates.members ∧
      (∀ v, v ∈ candidates ↔ v ∈ s.meaning bound k) ∧
      lookUp frames candidates info.lookups mine'.positions.toList = .ok made ∧
      s.buildCache? frames candidates level info made.toArray = .ok cache? ∧
      ∀ i v, candidates.members[i]? = some v →
        s.Entered (Function.update bound k v) (k + 1) (⟨k, v, i, candidates, cache?, made.toArray⟩ :: frames) := by
  obtain ⟨candidates, mine', hevaluate, hset, hmem⟩ := evaluate_eq_ok h hg hgood mine
  replace hmem : ∀ v, v ∈ candidates ↔ v ∈ s.meaning bound k := fun v => (hmem v).trans (hmeaning v)
  have hlookups : LevelInfo.lookupsAt s.plan.info k = info.lookups := by
    rw [LevelInfo.lookupsAt, hinfo]
  obtain ⟨made, hmade, hlocated⟩ := lookUp_eq_ok h hmem info.lookups mine'.positions.toList
    fun c hc => by
      rw [← hlookups, s.plan.info_eq] at hc
      obtain ⟨hck, -, hchain⟩ := s.plan.isValid.lookup hc
      exact ⟨hck, hchain⟩
  replace hlocated : ∀ (slot c : Nat) holder cache, info.lookups[slot]? = some c →
      frameAt frames c = .ok holder → holder.cache = some cache →
        ∃ found, made.toArray[slot]? = some found ∧ cache.Addresses found candidates := by
    simpa using hlocated
  obtain ⟨cache?, hcache?, hcover⟩ := buildCache?_eq_ok h hg hmem hgood hlocated
  refine ⟨candidates, mine', made, cache?, hevaluate, hset, hmem, hmade, hcache?, ?_⟩
  intro i v hi
  have hbefore : ∀ p < k, Function.update bound k v p = bound p := fun p hp =>
    Function.update_of_ne (Nat.ne_of_lt hp) ..
  refine h.push rfl hbefore ⟨?_, hi, ?_, hcover⟩ ?_
  · show v = _
    rw [Function.update_self]
  · intro w
    rw [meaning, Level.meaning_congr s.plan.isValid hbefore]
    exact hmem w
  · rw [Located, hlookups]
    exact hlocated

/-- A level that is not the last counts the completions, if the levels below it do. -/
theorem descend_inner (h : s.Entered bound k frames) (hg : s.graph.Closed) (hk : 1 ≤ k) {level : Level}
    {info : LevelInfo} {inner : List (Level × LevelInfo)} (hne : inner ≠ [])
    (hinner : s.Remaining k ((level, info) :: inner))
    (hbelow : ∀ {bound' : Nat → Nat} {frames' : List Frame}, s.Entered bound' (k + 1) frames' →
      ∀ b : List Buffers, b.length = inner.length → s.completionCount bound' (k + 1) < Word.size →
        ∃ b', s.descend inner (k + 1) frames' b = .ok (s.completionCount bound' (k + 1), b') ∧
          b'.length = inner.length)
    (mine : Buffers) {rest : List Buffers} (hrest : rest.length = inner.length)
    (hfits : s.completionCount bound k < Word.size) :
    ∃ buffers', s.descend ((level, info) :: inner) k frames (mine :: rest)
        = .ok (s.completionCount bound k, buffers') ∧ buffers'.length = inner.length + 1 := by
  obtain ⟨hlt, hgood, hinfo, hmeaning⟩ := hinner.head hk
  obtain ⟨candidates, mine', made, cache?, hevaluate, hset, hmem, hmade, hcache?, hentered⟩ :=
    enter_eq_ok h hg hgood hinfo (hmeaning bound) mine
  -- What is counted at a candidate depends on the buffers in no way.
  have hcount : ∀ i ∈ List.range candidates.size, ∀ b : List Buffers, b.length = inner.length →
      ∃ b', (do
          let vertex ← Fault.index candidates.members i
          s.descend inner (k + 1) (⟨k, vertex, i, candidates, cache?, made.toArray⟩ :: frames) b)
        = .ok (s.completionCount (Function.update bound k (candidates.members[i]?.getD 0)) (k + 1), b')
        ∧ b'.length = inner.length := by
    intro i hi b hb
    obtain ⟨v, hv⟩ : ∃ v, candidates.members[i]? = some v :=
      ⟨_, Array.getElem?_eq_getElem (show i < candidates.members.size from List.mem_range.mp hi)⟩
    have hle := completionCount_le hlt hmem (VertexSet.mem_iff_getElem?.mpr ⟨i, hv⟩)
    obtain ⟨b', hdescend, hb'⟩ := hbelow (hentered i v hv) b hb (Nat.lt_of_le_of_lt hle hfits)
    refine ⟨b', ?_, hb'⟩
    simp only [Fault.index, hv, bind, Except.bind, Option.getD_some]
    exact hdescend
  have htotal : s.completionCount bound k = 0 + ((List.range candidates.size).map fun i =>
      s.completionCount (Function.update bound k (candidates.members[i]?.getD 0)) (k + 1)).sum := by
    rw [Nat.zero_add, completionCount_eq_sum hlt hmem, ← VertexSet.map_range_members]
  rw [htotal] at hfits ⊢
  obtain ⟨next, inner, rfl⟩ := List.exists_cons_of_ne_nil hne
  simp only [bind, Except.bind] at hcount
  simp only [descend, hevaluate, hset, VertexSet.ofArray_members, hmade, hcache?, bind, Except.bind]
  by_cases hempty : candidates.members.isEmpty = true
  · have hsize : candidates.size = 0 := Array.isEmpty_iff_size_eq_zero.mp hempty
    refine ⟨mine' :: rest, ?_, congrArg (· + 1) hrest⟩
    rw [if_pos hempty, hsize]
    rfl
  · rw [if_neg hempty]
    by_cases hshared : s.threshold < candidates.size
    · have hflatten := s.sharing.flatten_jobs frames candidates.size
      have hfresh : (freshBuffers rest.length).length = (next :: inner).length :=
        List.length_replicate.trans hrest
      rw [← hflatten] at hcount hfits ⊢
      have hsum := sumJobs_eq_ok (P := fun b => b.length = (next :: inner).length) hfresh _ hcount hfits
      refine ⟨⟨candidates.members, mine'.spare, mine'.excluded, made.toArray⟩ :: rest, ?_,
        congrArg (· + 1) hrest⟩
      rw [if_pos hshared, hsum]
      rfl
    · obtain ⟨b', hsum, hb'⟩ := sumOver_eq_ok (P := fun b => b.length = (next :: inner).length)
        _ _ hcount hfits hrest
      refine ⟨⟨candidates.members, mine'.spare, mine'.excluded, made.toArray⟩ :: b', ?_,
        congrArg (· + 1) hb'⟩
      rw [if_neg hshared, hsum]
      rfl

/-- The number that is counted below the vertices bound so far is the number of their completions. -/
theorem descend_eq_ok (hg : s.graph.Closed) :
    ∀ {inner : List (Level × LevelInfo)} {k : Nat} {frames : List Frame} {bound : Nat → Nat}
      {buffers : List Buffers}, 1 ≤ k → s.Remaining k inner → inner ≠ [] → s.Entered bound k frames →
      buffers.length = inner.length → s.completionCount bound k < Word.size →
      ∃ buffers', s.descend inner k frames buffers = .ok (s.completionCount bound k, buffers') ∧
        buffers'.length = inner.length
  | [], _, _, _, _, _, _, hne, _, _, _ => (hne rfl).elim
  | _, _, _, _, [], _, _, hne, _, hlen, _ => (hne (List.length_eq_zero_iff.mp hlen.symm)).elim
  | [(level, info)], _, _, _, mine :: rest, hk, hinner, _, h, hlen, _ => by
      obtain rfl : rest = [] := List.length_eq_zero_iff.mp (Nat.succ.inj hlen)
      exact descend_last h hg hk hinner mine
  | (level, info) :: next :: inner, k, frames, bound, mine :: rest, hk, hinner, _, h, hlen, hfits => by
      refine descend_inner h hg hk (List.cons_ne_nil _ _) hinner ?_ mine (Nat.succ.inj hlen) hfits
      intro bound' frames' hentered b hb hfits'
      exact descend_eq_ok hg (Nat.le_succ_of_le hk) hinner.tail (List.cons_ne_nil _ _) hentered hb hfits'

/-! ## Units of work -/

/-- The levels below the first are what is left when it is bound. -/
theorem remaining_innerLevels (s : Search) : s.Remaining 1 s.innerLevels := by
  have hsize : s.plan.info.size = s.plan.levels.size := by rw [s.plan.info_eq, LevelInfo.size_ofLevels]
  have hpos : 0 < s.plan.levels.size := s.plan.depth_pos
  constructor
  · rw [innerLevels, List.length_tail, List.length_zip, Array.length_toList, Array.length_toList, hsize]
    omega
  · intro i level info hi
    rw [innerLevels, List.getElem?_tail, List.getElem?_zip_eq_some, Array.getElem?_toList,
      Array.getElem?_toList] at hi
    rw [Nat.add_comm 1 i]
    exact hi

noncomputable def rootCount (s : Search) (v : Nat) : Nat :=
  s.completionCount (Function.update (fun _ => 0) 0 v) 1

theorem tupleCount_eq_sum (s : Search) :
    Level.tupleCount s.plan.levels s.graph = ((List.range s.graph.vertexCount).map s.rootCount).sum := by
  have hmem : ∀ v, v ∈ s.graph.vertices ↔ v ∈ s.meaning (fun _ => 0) 0 := fun v => by
    rw [meaning, Level.mem_meaning_zero s.plan.isValid]
    exact HostGraph.mem_vertices
  have htoList : s.graph.vertices.toList = List.range s.graph.vertexCount := Array.toList_range ..
  rw [← Level.card_completions_zero fun _ => 0, ← htoList]
  exact completionCount_eq_sum s.plan.depth_pos hmem

/-- A unit counts the tuples that begin in it, and leaves as many buffers as it was given. -/
theorem countUnit_eq_ok (hg : s.graph.Closed) {u : WorkUnit} (hu : ∀ v ∈ u.vertices, v < s.graph.vertexCount)
    {buffers : List Buffers} (hbuffers : buffers.length = s.plan.depth - 1)
    (hfits : (u.vertices.map s.rootCount).sum < Word.size) :
    ∃ buffers', s.countUnit u buffers = .ok ((u.vertices.map s.rootCount).sum, buffers') ∧
      buffers'.length = s.plan.depth - 1 := by
  have hinner := s.remaining_innerLevels
  have hlen : s.innerLevels.length = s.plan.depth - 1 := by
    have : 1 + s.innerLevels.length = s.plan.depth := hinner.1
    omega
  by_cases hdepth : s.plan.depth = 1
  · have hone : ∀ v ∈ u.vertices, s.rootCount v = 1 := fun v hv => by
      have hbound : ∀ p < s.plan.levels.size, Function.update (fun _ => 0) 0 v p < s.graph.vertexCount := by
        intro p hp
        obtain rfl : p = 0 := Nat.lt_one_iff.mp (Nat.lt_of_lt_of_eq hp hdepth)
        rw [Function.update_self]
        exact hu v hv
      have hone := completionCount_depth hbound
      rw [show s.plan.levels.size = 1 from hdepth] at hone
      exact hone
    refine ⟨buffers, ?_, hbuffers⟩
    rw [countUnit, if_pos hdepth, List.map_congr_left hone, List.map_const', List.sum_replicate_nat,
      Nat.mul_one, WorkUnit.vertices, List.length_range']
  · have hne : s.innerLevels ≠ [] := fun hnil => by
      have := s.plan.depth_pos
      rw [hnil, List.length_nil] at hlen
      omega
    rw [← Nat.zero_add (List.sum _)] at hfits ⊢
    rw [countUnit, if_neg hdepth]
    refine sumOver_eq_ok (P := fun b => b.length = s.plan.depth - 1) _ _ (fun v hv b hb => ?_) hfits hbuffers
    have hle : s.rootCount v ≤ (u.vertices.map s.rootCount).sum := List.le_sum_of_mem (List.mem_map_of_mem hv)
    obtain ⟨b', hdescend, hb'⟩ := descend_eq_ok hg (Nat.le_refl 1) hinner hne (Entered.root (hu v hv))
      (hb.trans hlen.symm) (Nat.lt_of_le_of_lt hle (by rwa [Nat.zero_add] at hfits))
    exact ⟨b', hdescend, hb'.trans hlen⟩

theorem countUnits_eq_ok (hg : s.graph.Closed) : ∀ {jobs : List (WorkUnit × List Buffers)},
    (∀ job ∈ jobs, ∀ v ∈ job.1.vertices, v < s.graph.vertexCount) →
    (∀ job ∈ jobs, job.2.length = s.plan.depth - 1) →
    ((jobs.flatMap fun job => job.1.vertices).map s.rootCount).sum < Word.size →
    ∃ results, jobs.mapM (fun job => s.countUnit job.1 job.2) = .ok results ∧
      (results.map Prod.fst).sum = ((jobs.flatMap fun job => job.1.vertices).map s.rootCount).sum ∧
      ∀ result ∈ results, result.2.length = s.plan.depth - 1
  | [], _, _, _ => ⟨[], rfl, rfl, nofun⟩
  | job :: rest, hvertices, hbuffers, hfits => by
      rw [List.flatMap_cons, List.map_append, List.sum_append] at hfits ⊢
      obtain ⟨hjob, hrest⟩ := List.forall_mem_cons.mp hvertices
      obtain ⟨hjobBuffers, hrestBuffers⟩ := List.forall_mem_cons.mp hbuffers
      obtain ⟨buffers, hcount, hlen⟩ :=
        countUnit_eq_ok hg hjob hjobBuffers (Nat.lt_of_le_of_lt (Nat.le_add_right _ _) hfits)
      obtain ⟨results, hresults, hsum, hlens⟩ :=
        countUnits_eq_ok hg hrest hrestBuffers (Nat.lt_of_le_of_lt (Nat.le_add_left _ _) hfits)
      refine ⟨((job.1.vertices.map s.rootCount).sum, buffers) :: results, ?_, ?_,
        List.forall_mem_cons.mpr ⟨hlen, hlens⟩⟩
      · rw [List.mapM_cons, hcount]
        simp only [bind, Except.bind] at hresults ⊢
        rw [hresults]
        rfl
      · rw [List.map_cons, List.sum_cons, hsum]

/-- Units that cover the vertices of a graph once count every tuple once. -/
theorem countUnits_of_closed (hg : s.graph.Closed) {jobs : List (WorkUnit × List Buffers)}
    (hbuffers : ∀ job ∈ jobs, job.2.length = s.plan.depth - 1)
    (hcover : (jobs.flatMap fun job => job.1.vertices).Perm (List.range s.graph.vertexCount))
    (hfits : Level.tupleCount s.plan.levels s.graph < Word.size) :
    ∃ results, jobs.mapM (fun job => s.countUnit job.1 job.2) = .ok results ∧
      (results.map Prod.fst).sum = Level.tupleCount s.plan.levels s.graph ∧
      ∀ result ∈ results, result.2.length = s.plan.depth - 1 := by
  have hsum : ((jobs.flatMap fun job => job.1.vertices).map s.rootCount).sum
      = Level.tupleCount s.plan.levels s.graph := by
    rw [tupleCount_eq_sum, (hcover.map s.rootCount).sum_eq]
  rw [← hsum] at hfits ⊢
  refine countUnits_eq_ok hg ?_ hbuffers hfits
  intro job hjob v hv
  exact List.mem_range.mp (hcover.mem_iff.mp (List.mem_flatMap.mpr ⟨job, hjob, hv⟩))

/-- Units that cover all vertices once, each counted with any buffers, count every tuple once. -/
theorem countUnit_cover {rows : Array (Array Nat)} (hg : HostGraph.ofAdjacency rows = .ok s.graph)
    {jobs : List (WorkUnit × List Buffers)} (hbuffers : ∀ job ∈ jobs, job.2.length = s.plan.depth - 1)
    (hcover : (jobs.flatMap fun job => job.1.vertices).Perm (List.range s.graph.vertexCount))
    (hfits : Level.tupleCount s.plan.levels s.graph < Word.size) :
    ∃ results, jobs.mapM (fun job => s.countUnit job.1 job.2) = .ok results ∧
      (results.map Prod.fst).sum = Level.tupleCount s.plan.levels s.graph ∧
      ∀ result ∈ results, result.2.length = s.plan.depth - 1 :=
  countUnits_of_closed (HostGraph.closed_of_ofAdjacency hg) hbuffers hcover hfits

/-- Triangles through a cache, in a graph with a loop and an edge in one direction only: two units, one of them
with used buffers. A level that is shared out is one job, whose candidates share its buffers. -/
theorem countUnit_cover_loop :
    ∃ s : Search, HostGraph.ofAdjacency #[#[0, 1, 2], #[0, 2], #[1]] = .ok s.graph ∧
      s.plan.levels = #[⟨.ofBase .all, none⟩, ⟨.ofBase (.adjacency 0), some ⟨none⟩⟩,
        ⟨(SetExpr.ofBase (.candidates 1)).intersect (.cached 1 1), none⟩] ∧
      ∃ results,
        [(WorkUnit.mk 2 3 1, s.workerBuffers), (WorkUnit.mk 0 2 0, [⟨#[7], #[8, 2], #[], #[#[1]]⟩, .empty])].mapM
          (fun job => s.countUnit job.1 job.2) = .ok results ∧
        (results.map Prod.fst).sum = Level.tupleCount s.plan.levels s.graph ∧
        ∀ result ∈ results, result.2.length = s.plan.depth - 1 := by
  let levels : Array Level := #[⟨.ofBase .all, none⟩, ⟨.ofBase (.adjacency 0), some ⟨none⟩⟩,
    ⟨(SetExpr.ofBase (.candidates 1)).intersect (.cached 1 1), none⟩]
  let s : Search :=
    { graph := ⟨#[0, 3, 5, 6], #[0, 1, 2, 0, 2, 1], 3⟩
      plan := ⟨levels, LevelInfo.ofLevels levels, by decide +kernel, rfl⟩
      vertices := .upTo 3
      threshold := 1
      sharing := ⟨fun _ count => [List.range count], fun _ _ => List.append_nil _⟩
      policy := .always
      vertices_eq := rfl }
  have hg : HostGraph.ofAdjacency #[#[0, 1, 2], #[0, 2], #[1]] = .ok s.graph := by decide +kernel
  have hcover : ([WorkUnit.mk 2 3 1, WorkUnit.mk 0 2 0].flatMap WorkUnit.vertices).Perm
      (List.range s.graph.vertexCount) := by decide
  exact ⟨s, hg, rfl, countUnit_cover hg (by decide) hcover
    (Nat.lt_of_le_of_lt Level.tupleCount_le (by decide))⟩

end PatternCount.Search
