import PatternCount.Proofs.Plan.Caches
import PatternCount.Proofs.Plan.Compile
import PatternCount.Proofs.Search.Count

/-!
# Plans for patterns count embeddings

An embedding of a pattern sends its positions to different vertices, so that edges go to edges, restrictions are
kept, and in the induced case positions that are not adjacent go to vertices that are not. `Plan.ofPattern` makes
a plan for every connected pattern (`ofPattern_eq_ok`), whose tuples are the embeddings in another order
(`tupleCount_ofPattern`). Hence the search counts the embeddings.

A tuple says nothing about pairs of positions twice: what an embedding asks of two positions is asked by the level
that binds the later of them. That two adjacent positions go to different vertices no level asks; it follows, as
the graph has no loops.
-/

namespace PatternCount

/-- An embedding of the pattern in the graph, as the options ask for it. -/
structure Pattern.Embeds (p : Pattern) (o : CompileOptions) (g : HostGraph)
    (f : Fin p.size → Fin g.vertexCount) : Prop where
  injective : Function.Injective f
  edges : ∀ a b : Fin p.size, p.Adjacent a b → g.Edge (f a) (f b)
  nonEdges : o.induced = true → ∀ a b : Fin p.size, a ≠ b → ¬p.Adjacent a b → ¬g.Edge (f a) (f b)
  restricted : ∀ a b : Fin p.size, (a.val, b.val) ∈ o.restrictions → f b < f a

noncomputable def Pattern.embeddingCount (p : Pattern) (o : CompileOptions) (g : HostGraph) : Nat :=
  Nat.card {f : Fin p.size → Fin g.vertexCount // p.Embeds o g f}

namespace Plan

variable {p : Pattern} {o : CompileOptions} {g : HostGraph}

/-! ## Positions and levels -/

def positionAt (p : Pattern) (k : Nat) : Nat := p.bindingOrder.getD k 0

def levelOf (p : Pattern) (a : Nat) : Nat := p.bindingOrder.idxOf a

theorem positionAt_lt {k : Nat} (hk : k < p.size) : positionAt p k < p.size := by
  have hlen : k < p.bindingOrder.length := p.length_bindingOrder.symm ▸ hk
  rw [positionAt, ← List.getElem_eq_getD (h := hlen)]
  exact Pattern.mem_bindingOrder.mp (List.getElem_mem hlen)

theorem levelOf_positionAt {k : Nat} (hk : k < p.size) : levelOf p (positionAt p k) = k := by
  have hlen : k < p.bindingOrder.length := p.length_bindingOrder.symm ▸ hk
  rw [positionAt, ← List.getElem_eq_getD (h := hlen)]
  exact p.nodup_bindingOrder.idxOf_getElem k hlen

theorem levelOf_lt {a : Nat} (ha : a < p.size) : levelOf p a < p.size :=
  Nat.lt_of_lt_of_eq (List.idxOf_lt_length_of_mem (Pattern.mem_bindingOrder.mpr ha)) p.length_bindingOrder

theorem positionAt_levelOf {a : Nat} (ha : a < p.size) : positionAt p (levelOf p a) = a := by
  have hlen := List.idxOf_lt_length_of_mem (Pattern.mem_bindingOrder.mpr ha)
  rw [positionAt, levelOf, ← List.getElem_eq_getD (h := hlen)]
  exact List.getElem_idxOf hlen

def levelEquiv (p : Pattern) {depth : Nat} (h : depth = p.size) : Fin depth ≃ Fin p.size where
  toFun k := ⟨positionAt p k, positionAt_lt (Nat.lt_of_lt_of_eq k.isLt h)⟩
  invFun a := ⟨levelOf p a, Nat.lt_of_lt_of_eq (levelOf_lt a.isLt) h.symm⟩
  left_inv k := Fin.ext (levelOf_positionAt (Nat.lt_of_lt_of_eq k.isLt h))
  right_inv a := Fin.ext (positionAt_levelOf a.isLt)

/-- The vertex that an assignment to the positions binds at level `k`. -/
def placed {n : Nat} (f : Fin p.size → Fin n) (k : Nat) : Nat := Level.vertexOf f (positionAt p k)

theorem placed_levelOf {n : Nat} (f : Fin p.size → Fin n) (a : Fin p.size) :
    placed f (levelOf p a) = f a := by
  rw [placed, positionAt_levelOf a.isLt, Level.vertexOf_val]

theorem placed_eq {n : Nat} (f : Fin p.size → Fin n) {k : Nat} (hk : k < p.size) :
    placed f k = f ⟨positionAt p k, positionAt_lt hk⟩ :=
  Level.vertexOf_val f ⟨positionAt p k, positionAt_lt hk⟩

/-! ## Embeddings level by level -/

theorem above_placed_iff {f : Fin p.size → Fin g.vertexCount}
    (ho : ∀ r ∈ o.restrictions, r.1 < p.size ∧ r.2 < p.size ∧ r.1 ≠ r.2) :
    (∀ k i, Restriction.Above (aboveFor p o) k i → placed f k < placed f i) ↔
      ∀ a b : Fin p.size, (a.val, b.val) ∈ o.restrictions → f b < f a := by
  rw [aboveFor, Restriction.forall_closure_iff]
  constructor
  · intro h a b hab
    have hlt := h (levelOf p b) (levelOf p a) (Restriction.above_table_iff.mpr
      ⟨List.idxOf_lt_length_of_mem (Pattern.mem_bindingOrder.mpr b.isLt), _, hab, rfl, rfl⟩)
    rw [placed_levelOf, placed_levelOf] at hlt
    exact hlt
  · intro h k i hki
    obtain ⟨-, ⟨a, b⟩, hr, rfl, rfl⟩ := Restriction.above_table_iff.mp hki
    obtain ⟨ha, hb, -⟩ := ho _ hr
    show placed f (levelOf p b) < placed f (levelOf p a)
    rw [placed_levelOf f ⟨a, ha⟩, placed_levelOf f ⟨b, hb⟩]
    exact h ⟨a, ha⟩ ⟨b, hb⟩ hr

/-- The vertices of an embedding meet the demands of every level. -/
theorem meets_of_embeds (ho : ∀ r ∈ o.restrictions, r.1 < p.size ∧ r.2 < p.size ∧ r.1 ≠ r.2)
    {f : Fin p.size → Fin g.vertexCount} (h : p.Embeds o g f) {k : Nat} (hk : k < p.size) :
    (demandsFor p o k).Meets o.induced g (placed f) k (placed f k) := by
  have habove := (above_placed_iff ho).mpr h.restricted
  refine ⟨?_, ?_, ?_, ?_⟩
  · intro j hj
    obtain ⟨hjk, hadjacent⟩ := (mem_neighbors hk).mp hj
    rw [placed_eq f hk, placed_eq f (Nat.lt_trans hjk hk)]
    exact h.edges _ _ hadjacent
  · intro j hj
    exact habove _ _ ((mem_uppers hk).mp hj).2
  · intro j hj
    exact habove _ _ ((mem_lowers hk).mp hj).2
  · intro j hjk hj
    have hj' := Nat.lt_trans hjk hk
    have hne : positionAt p j ≠ positionAt p k := fun heq => by
      rw [← levelOf_positionAt hj', heq, levelOf_positionAt hk] at hjk
      exact Nat.lt_irrefl _ hjk
    rw [placed_eq f hk, placed_eq f hj']
    refine ⟨fun heq => hne (Fin.mk.inj (h.injective (Fin.ext heq))).symm, ?_⟩
    intro hinduced
    refine h.nonEdges hinduced _ _ (fun heq => hne (Fin.mk.inj heq)) ?_
    intro hadjacent
    exact hj ((mem_neighbors hk).mpr ⟨hjk, hadjacent⟩)

section Meets

variable {f : Fin p.size → Fin g.vertexCount} (h : ∀ k, 1 ≤ k → k < p.size →
  (demandsFor p o k).Meets o.induced g (placed f) k (placed f k))

include h

/-- What is asked of two positions, given the one that is bound first. -/
theorem joined_of_meets (hg : g.Undirected) {j k : Nat} (hjk : j < k) (hk : k < p.size) :
    placed f j ≠ placed f k ∧
      (p.Adjacent (positionAt p j) (positionAt p k) → g.Edge (placed f j) (placed f k)) ∧
      (o.induced = true → ¬p.Adjacent (positionAt p j) (positionAt p k) → ¬g.Edge (placed f j) (placed f k)) := by
  have hmeets := h k (Nat.lt_of_le_of_lt (Nat.zero_le j) hjk) hk
  by_cases hadjacent : p.Adjacent (positionAt p j) (positionAt p k)
  · have hedge := hmeets.neighbors j ((mem_neighbors hk).mpr ⟨hjk, hadjacent⟩)
    exact ⟨fun heq => hg.irrefl _ (heq ▸ hedge), fun _ => hedge, fun _ hnot => (hnot hadjacent).elim⟩
  · obtain ⟨hne, hnonEdge⟩ := hmeets.others j hjk fun hj => hadjacent ((mem_neighbors hk).mp hj).2
    exact ⟨hne.symm, fun hadjacent' => (hadjacent hadjacent').elim, fun hinduced _ => hnonEdge hinduced⟩

theorem pairs_of_meets (hg : g.Undirected) {a b : Fin p.size} (hab : a ≠ b) :
    f a ≠ f b ∧ (p.Adjacent a b → g.Edge (f a) (f b)) ∧
      (o.induced = true → ¬p.Adjacent a b → ¬g.Edge (f a) (f b)) := by
  have ha := positionAt_levelOf a.isLt
  have hb := positionAt_levelOf b.isLt
  rcases Nat.lt_trichotomy (levelOf p a) (levelOf p b) with hlt | heq | hlt
  · have hjoined := joined_of_meets h hg hlt (levelOf_lt b.isLt)
    rw [ha, hb, placed_levelOf, placed_levelOf] at hjoined
    exact ⟨fun heq => hjoined.1 (congrArg Fin.val heq), hjoined.2⟩
  · rw [← heq, ha] at hb
    exact (hab (Fin.ext hb)).elim
  · have hjoined := joined_of_meets h hg hlt (levelOf_lt a.isLt)
    rw [ha, hb, placed_levelOf, placed_levelOf] at hjoined
    obtain ⟨hne, hedge, hnonEdge⟩ := hjoined
    exact ⟨fun heq => hne (congrArg Fin.val heq.symm), fun hadjacent => hg.symm (hedge hadjacent.symm),
      fun hinduced hnot hfab => hnonEdge hinduced (fun hba => hnot hba.symm) (hg.symm hfab)⟩

theorem above_of_meets {a b : Fin p.size} (hab : ((a : Nat), (b : Nat)) ∈ o.restrictions)
    (hne : (a : Nat) ≠ b) : (f b : Nat) < f a := by
  have habove : Restriction.Above (aboveFor p o) (levelOf p b) (levelOf p a) :=
    Restriction.mem_closure_iff.mpr (.single (Restriction.above_table_iff.mpr
      ⟨List.idxOf_lt_length_of_mem (Pattern.mem_bindingOrder.mpr b.isLt), _, hab, rfl, rfl⟩))
  rw [← placed_levelOf f a, ← placed_levelOf f b]
  have ha := levelOf_lt a.isLt
  have hb := levelOf_lt b.isLt
  rcases Nat.lt_trichotomy (levelOf p a) (levelOf p b) with hlt | heq | hlt
  · exact (h _ (Nat.lt_of_le_of_lt (Nat.zero_le _) hlt) hb).uppers _ ((mem_uppers hb).mpr ⟨hlt, habove⟩)
  · have hsame := positionAt_levelOf b.isLt
    rw [← heq, positionAt_levelOf a.isLt] at hsame
    exact (hne hsame).elim
  · exact (h _ (Nat.lt_of_le_of_lt (Nat.zero_le _) hlt) ha).lowers _ ((mem_lowers ha).mpr ⟨hlt, habove⟩)

/-- What meets the demands of every level is an embedding. -/
theorem embeds_of_meets (hg : g.Undirected)
    (ho : ∀ r ∈ o.restrictions, r.1 < p.size ∧ r.2 < p.size ∧ r.1 ≠ r.2) : p.Embeds o g f := by
  constructor
  · intro a b hfab
    by_contra hab
    exact (pairs_of_meets h hg hab).1 hfab
  · intro a b hadjacent
    refine (pairs_of_meets h hg ?_).2.1 hadjacent
    intro heq
    exact Pattern.not_adjacent_self _ (heq ▸ hadjacent)
  · intro hinduced a b hab
    exact (pairs_of_meets h hg hab).2.2 hinduced
  · intro a b hab
    exact above_of_meets h hab (ho _ hab).2.2

end Meets

/-! ## Plans for patterns -/

theorem checkRestrictions_eq_ok_iff {size : Nat} {restrictions : List (Nat × Nat)} :
    checkRestrictions size restrictions = .ok () ↔
      ∀ r ∈ restrictions, r.1 < size ∧ r.2 < size ∧ r.1 ≠ r.2 := by
  unfold checkRestrictions
  split
  · next a b hbad =>
      have hr := List.mem_of_find?_eq_some hbad
      have hfalse := List.find?_some hbad
      exact iff_of_false nofun fun ho => of_decide_eq_true hfalse (ho _ hr)
  · next hnone =>
      refine iff_of_true rfl fun r hr => ?_
      have htrue := List.find?_eq_none.mp hnone r hr
      simpa using htrue

/-- A connected pattern with restrictions between its positions is given the levels made for it, with adjacency
read from caches if that is asked for. -/
theorem levels_ofPattern (hp : p.isConnected = true)
    (ho : ∀ r ∈ o.restrictions, r.1 < p.size ∧ r.2 < p.size ∧ r.1 ≠ r.2) :
    ∃ plan levels, ofPattern p o = .ok plan ∧ levelsFor p o = .ok levels ∧ levels.size = p.size ∧
      Compiled o.induced (demandsFor p o) levels ∧
      plan.levels = if o.useCache then Level.throughCaches levels else levels := by
  obtain ⟨levels, hlevels, hsize, hcompiled⟩ := levelsFor_eq_ok (o := o) hp
  have hrestrictions := checkRestrictions_eq_ok_iff.mpr ho
  have hvalid := hcompiled.valid
  obtain ⟨plan, hplan, hplanLevels⟩ : ∃ plan,
      ofLevels (if o.useCache then Level.throughCaches levels else levels) = .ok plan ∧
        plan.levels = if o.useCache then Level.throughCaches levels else levels := by
    cases o.useCache with
    | true => exact ofLevels_eq_ok hvalid.throughCaches
    | false => exact ofLevels_eq_ok hvalid
  refine ⟨plan, levels, ?_, hlevels, hsize, hcompiled, hplanLevels⟩
  simp only [ofPattern, hp, hrestrictions, hlevels, hplan, bind, Except.bind]
  rfl

/-- A connected pattern with restrictions between its positions has a plan, whose levels mean what was made for
the pattern, with caches or without. -/
theorem ofPattern_eq_ok (hp : p.isConnected = true)
    (ho : ∀ r ∈ o.restrictions, r.1 < p.size ∧ r.2 < p.size ∧ r.1 ≠ r.2) :
    ∃ plan levels, ofPattern p o = .ok plan ∧ plan.levels.size = p.size ∧
      Compiled o.induced (demandsFor p o) levels ∧ levels.size = p.size ∧
      ∀ g bound k, Level.meaning plan.levels g bound k = Level.meaning levels g bound k := by
  obtain ⟨plan, levels, hplan, -, hsize, hcompiled, hplanLevels⟩ := levels_ofPattern hp ho
  refine ⟨plan, levels, hplan, ?_, hcompiled, hsize, ?_⟩
  · rw [hplanLevels]
    cases o.useCache with
    | true => exact (Level.size_throughCaches levels).trans hsize
    | false => exact hsize
  · intro g bound k
    rw [hplanLevels]
    cases o.useCache with
    | true => exact Level.meaning_throughCaches
    | false => rfl

/-- The tuples that carry out levels made for a pattern are its embeddings, in the order in which positions are
bound. -/
theorem carries_iff_embeds (hg : g.Undirected)
    (ho : ∀ r ∈ o.restrictions, r.1 < p.size ∧ r.2 < p.size ∧ r.1 ≠ r.2) {levels levels' : Array Level}
    (hcompiled : Compiled o.induced (demandsFor p o) levels) (hsize : levels.size = p.size)
    (hsize' : levels'.size = p.size)
    (hmeaning : ∀ bound k, Level.meaning levels' g bound k = Level.meaning levels g bound k)
    (f : Fin p.size → Fin g.vertexCount) :
    p.Embeds o g f ↔ Level.Carries levels' g (f ∘ levelEquiv p hsize') := by
  -- Whichever way the vertices are written, the same vertex is bound at each level.
  have hplaced : ∀ k < p.size, Level.vertexOf (f ∘ levelEquiv p hsize') k = placed f k := fun k hk => by
    rw [Level.vertexOf, dif_pos (Nat.lt_of_lt_of_eq hk hsize'.symm), placed_eq f hk]
    rfl
  have hvalue : ∀ k : Fin levels'.size, ((f ∘ levelEquiv p hsize') k : Nat) = placed f k := fun k => by
    rw [← hplaced k (Nat.lt_of_lt_of_eq k.isLt hsize'), Level.vertexOf_val]
  have hlevel : ∀ k < p.size, 1 ≤ k →
      (placed f k ∈ Level.meaning levels' g (Level.vertexOf (f ∘ levelEquiv p hsize')) k ↔
        (demandsFor p o k).Meets o.induced g (placed f) k (placed f k)) := fun k hk hone => by
    rw [hmeaning, Level.meaning_congr hcompiled.valid fun j hj => hplaced j (Nat.lt_trans hj hk)]
    exact hcompiled.mem_meaning hg.irrefl hone (hsize.symm ▸ hk)
  constructor
  · intro h k
    have hk := Nat.lt_of_lt_of_eq k.isLt hsize'
    rw [hvalue]
    rcases Nat.eq_zero_or_pos k.val with hzero | hpos
    · rw [hzero, hmeaning, Level.mem_meaning_zero hcompiled.valid, placed_eq f p.size_pos]
      exact Fin.isLt _
    · exact (hlevel k hk hpos).mpr (meets_of_embeds ho h hk)
  · intro h
    refine embeds_of_meets (fun k hone hk => (hlevel k hk hone).mp ?_) hg ho
    have hcarries := h ⟨k, Nat.lt_of_lt_of_eq hk hsize'.symm⟩
    rw [hvalue] at hcarries
    exact hcarries

/-- A plan for a pattern has as many tuples as the pattern has embeddings. -/
theorem tupleCount_ofPattern (hp : p.isConnected = true)
    (ho : ∀ r ∈ o.restrictions, r.1 < p.size ∧ r.2 < p.size ∧ r.1 ≠ r.2) :
    ∃ plan, ofPattern p o = .ok plan ∧ plan.levels.size = p.size ∧ ∀ {g : HostGraph}, g.Undirected →
      Level.tupleCount plan.levels g = p.embeddingCount o g := by
  obtain ⟨plan, levels, hplan, hsize', hcompiled, hsize, hmeaning⟩ := ofPattern_eq_ok (o := o) hp ho
  refine ⟨plan, hplan, hsize', fun {g} hg => (Nat.card_congr ?_).symm⟩
  exact ((levelEquiv p hsize').symm.arrowCongr (Equiv.refl _)).subtypeEquiv
    (carries_iff_embeds hg ho hcompiled hsize hsize' (hmeaning g))

theorem embeddingCount_le : p.embeddingCount o g ≤ g.vertexCount ^ p.size := by
  refine (Finite.card_subtype_le _).trans (Nat.le_of_eq ?_)
  rw [Nat.card_eq_fintype_card, Fintype.card_fun, Fintype.card_fin, Fintype.card_fin]

/-- A connected pattern is given a plan, and in an undirected graph without loops the search counts its
embeddings: whatever is cached or shared out, and however the vertices are split into units. -/
theorem countUnit_ofPattern (hp : p.isConnected = true)
    (ho : ∀ r ∈ o.restrictions, r.1 < p.size ∧ r.2 < p.size ∧ r.1 ≠ r.2) :
    ∃ plan, ofPattern p o = .ok plan ∧ plan.depth = p.size ∧
      ∀ {s : Search}, s.plan = plan → s.graph.Undirected →
      ∀ {rows : Array (Array Nat)}, HostGraph.ofAdjacency rows = .ok s.graph →
      ∀ {jobs : List (WorkUnit × List Buffers)}, (∀ job ∈ jobs, job.2.length = plan.depth - 1) →
      (jobs.flatMap fun job => job.1.vertices).Perm (List.range s.graph.vertexCount) →
      p.embeddingCount o s.graph < Word.size →
      ∃ results, jobs.mapM (fun job => s.countUnit job.1 job.2) = .ok results ∧
        (results.map Prod.fst).sum = p.embeddingCount o s.graph := by
  obtain ⟨plan, hplan, hdepth, htuples⟩ := tupleCount_ofPattern (o := o) hp ho
  refine ⟨plan, hplan, hdepth, fun {s} hs hg {rows} hrows {jobs} hbuffers hcover hfits => ?_⟩
  subst hs
  rw [← htuples hg] at hfits ⊢
  obtain ⟨results, hresults, hsum, -⟩ :=
    Search.countUnits_of_closed (HostGraph.closed_of_ofAdjacency hrows) hbuffers hcover hfits
  exact ⟨results, hresults, hsum⟩

/-- Induced paths of three positions whose ends descend, in a graph of four vertices: two units, out of order. -/
theorem countUnit_ofPattern_path :
    ∃ p : Pattern, Pattern.path 3 = .ok p ∧
      ∃ plan, ofPattern p ⟨true, [(0, 2)], true⟩ = .ok plan ∧
        ∃ s : Search, s.plan = plan ∧
          HostGraph.ofAdjacency #[#[1, 2], #[0, 2], #[0, 1, 3], #[2]] = .ok s.graph ∧
          ∃ results,
            [(WorkUnit.mk 1 4 1, [.empty, .empty]), (WorkUnit.mk 0 1 0, [.empty, .empty])].mapM
              (fun job => s.countUnit job.1 job.2) = .ok results ∧
            (results.map Prod.fst).sum = p.embeddingCount ⟨true, [(0, 2)], true⟩ s.graph := by
  let p : Pattern := ((Pattern.edgeless 3 (by decide) (by decide)).link 0 1 (by decide) (by decide)
    (by decide)).link 1 2 (by decide) (by decide) (by decide)
  let g : HostGraph := ⟨#[0, 2, 4, 7, 8], #[1, 2, 0, 2, 0, 1, 3, 2], 3⟩
  have hg : HostGraph.ofAdjacency #[#[1, 2], #[0, 2], #[0, 1, 3], #[2]] = .ok g := by decide +kernel
  obtain ⟨plan, hplan, hdepth, hcount⟩ := countUnit_ofPattern (p := p) (o := ⟨true, [(0, 2)], true⟩)
    (by decide) (by decide)
  let s : Search := ⟨g, plan, g.vertices, 2, .singly, .always, rfl⟩
  have hbuffers : ∀ job ∈ [(WorkUnit.mk 1 4 1, [Buffers.empty, .empty]), (WorkUnit.mk 0 1 0, [.empty, .empty])],
      job.2.length = plan.depth - 1 := by
    rw [hdepth]
    decide
  have hcover : ([WorkUnit.mk 1 4 1, WorkUnit.mk 0 1 0].flatMap WorkUnit.vertices).Perm (List.range 4) := by
    decide
  have hfits : g.vertexCount ^ p.size < Word.size := by decide
  exact ⟨p, rfl, plan, hplan, s, rfl, hg, hcount rfl ((HostGraph.undirected_iff hg).mpr (by decide +kernel)) hg
    hbuffers hcover (Nat.lt_of_le_of_lt embeddingCount_le hfits)⟩

end Plan

end PatternCount
