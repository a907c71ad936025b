import Mathlib.Data.Finset.Powerset
import Mathlib.Data.Finset.Sort
import Mathlib.Data.Fintype.Perm
import PatternCount.Proofs.Pattern.Edges
import PatternCount.Proofs.Plan.Acceptance

/-!
# Counting cliques

A clique of a graph is a set of vertices any two of which are joined. The embeddings of a clique pattern list the
members of a clique, each in some order. If the vertices are asked to descend from position to position there is one
such order for every clique, and otherwise there are as many as permutations of the positions. So the plan for the
descending clique pattern counts each clique once, and the plan without restrictions counts it `size!` times
(`countUnit_clique`).

The counting is done on finite sets. `listing c h σ` lists the members of a set in the order that a permutation
makes of their ascending order: every injective list of vertices is a listing in one way (`listing_bijective`), and
the descending lists are those that use the permutation that turns the order round.
-/

namespace PatternCount

namespace HostGraph

variable {g : HostGraph}

/-- Any two different vertices of the set are joined. -/
def IsClique (g : HostGraph) (c : Finset (Fin g.vertexCount)) : Prop := ∀ u ∈ c, ∀ v ∈ c, u ≠ v → g.Edge u v

/-- The number of cliques with that many vertices. -/
noncomputable def cliqueCount (g : HostGraph) (size : Nat) : Nat :=
  Nat.card {c : Finset (Fin g.vertexCount) // c.card = size ∧ g.IsClique c}

/-- If any two vertices are joined, every set of vertices is a clique. -/
theorem cliqueCount_of_complete (h : ∀ u v, u < g.vertexCount → v < g.vertexCount → u ≠ v → g.Edge u v)
    (size : Nat) : g.cliqueCount size = g.vertexCount.choose size := by
  have hall : ∀ c : Finset (Fin g.vertexCount), g.IsClique c := fun c u _ v _ huv =>
    h u v u.isLt v.isLt fun heq => huv (Fin.ext heq)
  have hmem : ∀ c : Finset (Fin g.vertexCount),
      c ∈ Finset.univ.powersetCard size ↔ c.card = size ∧ g.IsClique c := fun c => by
    rw [Finset.mem_powersetCard]
    exact ⟨fun hc => ⟨hc.2, hall c⟩, fun hc => ⟨Finset.subset_univ c, hc.1⟩⟩
  rw [cliqueCount, Nat.subtype_card _ hmem, Finset.card_powersetCard, Finset.card_univ, Fintype.card_fin]

end HostGraph

/-! ## Listings of a set -/

section Listings

variable {d n : Nat} (P : Finset (Fin n) → Prop)

/-- The members of a set, in the order that a permutation makes of their ascending order. -/
def listing (c : {c : Finset (Fin n) // c.card = d ∧ P c}) (σ : Equiv.Perm (Fin d)) (i : Fin d) : Fin n :=
  c.1.orderEmbOfFin c.2.1 (σ i)

variable {P}

theorem listing_injective (c : {c : Finset (Fin n) // c.card = d ∧ P c}) (σ : Equiv.Perm (Fin d)) :
    Function.Injective (listing P c σ) :=
  (c.1.orderEmbOfFin c.2.1).injective.comp σ.injective

theorem image_listing (c : {c : Finset (Fin n) // c.card = d ∧ P c}) (σ : Equiv.Perm (Fin d)) :
    Finset.univ.image (listing P c σ) = c.1 := by
  refine Finset.eq_of_subset_of_card_le ?_ ?_
  · intro v hv
    obtain ⟨i, -, rfl⟩ := Finset.mem_image.mp hv
    exact c.1.orderEmbOfFin_mem c.2.1 (σ i)
  · rw [Finset.card_image_of_injective _ (listing_injective c σ), Finset.card_univ, Fintype.card_fin, c.2.1]

theorem card_image_of_injective {f : Fin d → Fin n} (hf : Function.Injective f) :
    (Finset.univ.image f).card = d := by
  rw [Finset.card_image_of_injective _ hf, Finset.card_univ, Fintype.card_fin]

/-- Every injective list of vertices is the listing of the set of its vertices in one order. -/
theorem exists_listing_eq {f : Fin d → Fin n} (hf : Function.Injective f) (hP : P (Finset.univ.image f)) :
    ∃ σ, listing P ⟨Finset.univ.image f, card_image_of_injective hf, hP⟩ σ = f := by
  let e := (Finset.univ.image f).orderIsoOfFin (card_image_of_injective hf)
  let place : Fin d → Fin d := fun i => e.symm ⟨f i, Finset.mem_image_of_mem f (Finset.mem_univ i)⟩
  have hplace : Function.Injective place := fun i j hij => hf (congrArg Subtype.val (e.symm.injective hij))
  refine ⟨Equiv.ofBijective place (Finite.injective_iff_bijective.mp hplace), funext fun i => ?_⟩
  show ((e (place i) : Fin n)) = f i
  rw [OrderIso.apply_symm_apply]

/-- There are as many listings of sets of `d` vertices as sets, for every permutation. -/
theorem card_injective_lists :
    Nat.card {f : Fin d → Fin n // Function.Injective f ∧ P (Finset.univ.image f)}
      = d.factorial * Nat.card {c : Finset (Fin n) // c.card = d ∧ P c} := by
  let list : Equiv.Perm (Fin d) × {c : Finset (Fin n) // c.card = d ∧ P c} →
      {f : Fin d → Fin n // Function.Injective f ∧ P (Finset.univ.image f)} :=
    fun x => ⟨listing P x.2 x.1, listing_injective x.2 x.1, (image_listing x.2 x.1).symm ▸ x.2.2.2⟩
  have hlist : Function.Bijective list := by
    constructor
    · rintro ⟨σ, c⟩ ⟨τ, c'⟩ heq
      have heq : listing P c σ = listing P c' τ := congrArg Subtype.val heq
      obtain rfl : c = c' := Subtype.ext (by rw [← image_listing c σ, heq, image_listing])
      have hperm : σ = τ := Equiv.ext fun i => (c.1.orderEmbOfFin c.2.1).injective (congrFun heq i)
      rw [hperm]
    · rintro ⟨f, hf, hP⟩
      obtain ⟨σ, hσ⟩ := exists_listing_eq hf hP
      exact ⟨⟨σ, _⟩, Subtype.ext hσ⟩
  rw [← Nat.card_eq_of_bijective list hlist, Nat.card_prod, Nat.card_eq_fintype_card (α := Equiv.Perm _),
    Fintype.card_perm, Fintype.card_fin]

/-- Every set of `d` vertices has one descending list. -/
theorem card_descending_lists :
    Nat.card {f : Fin d → Fin n // StrictAnti f ∧ P (Finset.univ.image f)}
      = Nat.card {c : Finset (Fin n) // c.card = d ∧ P c} := by
  let list : {c : Finset (Fin n) // c.card = d ∧ P c} →
      {f : Fin d → Fin n // StrictAnti f ∧ P (Finset.univ.image f)} :=
    fun c => ⟨listing P c Fin.revPerm, fun i j hij => (c.1.orderEmbOfFin c.2.1).strictMono (Fin.rev_lt_rev.mpr hij),
      (image_listing c Fin.revPerm).symm ▸ c.2.2⟩
  have hlist : Function.Bijective list := by
    constructor
    · intro c c' heq
      have heq : listing P c Fin.revPerm = listing P c' Fin.revPerm := congrArg Subtype.val heq
      exact Subtype.ext (by rw [← image_listing c Fin.revPerm, heq, image_listing])
    · rintro ⟨f, hf, hP⟩
      have hmem : ∀ i, f (Fin.rev i) ∈ Finset.univ.image f := fun i => Finset.mem_image_of_mem f (Finset.mem_univ _)
      have hmono : StrictMono fun i => f (Fin.rev i) := fun i j hij => hf (Fin.rev_lt_rev.mpr hij)
      refine ⟨⟨Finset.univ.image f, card_image_of_injective hf.injective, hP⟩, Subtype.ext ?_⟩
      funext i
      -- The ascending list of a set is unique, so that this one read backwards is it.
      have hunique := Finset.orderEmbOfFin_unique (card_image_of_injective hf.injective) hmem hmono
      show Finset.orderEmbOfFin _ _ (Fin.rev i) = f i
      rw [← congrFun hunique (Fin.rev i), Fin.rev_rev]
  exact (Nat.card_eq_of_bijective list hlist).symm

end Listings

/-! ## Embeddings of a clique -/

namespace Pattern

variable {p : Pattern} {g : HostGraph}

/-- An embedding of a complete pattern lists the vertices of a clique, as the restrictions ask. -/
theorem Complete.embeds_iff (h : p.Complete) {o : CompileOptions} {f : Fin p.size → Fin g.vertexCount} :
    p.Embeds o g f ↔ Function.Injective f ∧ g.IsClique (Finset.univ.image f) ∧
      ∀ a b : Fin p.size, (a.val, b.val) ∈ o.restrictions → f b < f a := by
  have hadjacent : ∀ a b : Fin p.size, a ≠ b → p.Adjacent a b := fun a b hab =>
    (h a b).mpr ⟨a.isLt, b.isLt, fun heq => hab (Fin.ext heq)⟩
  constructor
  · intro hf
    refine ⟨hf.injective, ?_, hf.restricted⟩
    intro u hu v hv huv
    obtain ⟨a, -, rfl⟩ := Finset.mem_image.mp hu
    obtain ⟨b, -, rfl⟩ := Finset.mem_image.mp hv
    exact hf.edges a b (hadjacent a b fun hab => huv (congrArg f hab))
  · rintro ⟨hinj, hclique, hrestricted⟩
    refine ⟨hinj, ?_, fun _ a b hne hnot => (hnot (hadjacent a b hne)).elim, hrestricted⟩
    intro a b hab
    have hne : f a ≠ f b := fun heq => not_adjacent_self (p := p) _ (hinj heq ▸ hab)
    exact hclique _ (Finset.mem_image_of_mem f (Finset.mem_univ a)) _
      (Finset.mem_image_of_mem f (Finset.mem_univ b)) hne

/-- A list whose neighbours descend is descending. -/
theorem strictAnti_of_neighbors {d n : Nat} {f : Fin d → Fin n}
    (h : ∀ a b : Fin d, (b : Nat) = a + 1 → f b < f a) : StrictAnti f := by
  cases d with
  | zero => exact fun a => a.elim0
  | succ d => exact Fin.strictAnti_iff_succ_lt.mpr fun a => h _ _ rfl

theorem restricted_descending_iff {d n : Nat} {f : Fin d → Fin n} :
    (∀ a b : Fin d, (a.val, b.val) ∈ (List.range (d - 1)).map (fun a => (a, a + 1)) → f b < f a) ↔
      StrictAnti f := by
  simp only [List.mem_map, List.mem_range, Prod.mk.injEq]
  constructor
  · intro h
    refine strictAnti_of_neighbors fun a b hab => h a b ⟨a, ?_, rfl, hab.symm⟩
    have := b.isLt
    omega
  · rintro h a b ⟨c, -, hca, hcb⟩
    exact h (Fin.lt_def.mpr (by omega))

/-- Without restrictions, every clique is embedded in every order. -/
theorem Complete.embeddingCount (h : p.Complete) {o : CompileOptions} (ho : o.restrictions = []) :
    p.embeddingCount o g = p.size.factorial * g.cliqueCount p.size := by
  rw [HostGraph.cliqueCount, ← card_injective_lists]
  refine Nat.card_congr (Equiv.subtypeEquivRight fun f => ?_)
  rw [h.embeds_iff, ho]
  exact and_congr_right fun _ => and_iff_left nofun

/-- If vertices have to descend, every clique is embedded once. -/
theorem Complete.embeddingCount_descending (h : p.Complete) {o : CompileOptions}
    (ho : o.restrictions = (List.range (p.size - 1)).map fun a => (a, a + 1)) :
    p.embeddingCount o g = g.cliqueCount p.size := by
  rw [HostGraph.cliqueCount, ← card_descending_lists]
  refine Nat.card_congr (Equiv.subtypeEquivRight fun f => ?_)
  rw [h.embeds_iff, ho, restricted_descending_iff]
  exact ⟨fun ⟨_, hclique, hdescend⟩ => ⟨hdescend, hclique⟩,
    fun ⟨hdescend, hclique⟩ => ⟨hdescend.injective, hclique, hdescend⟩⟩

end Pattern

/-! ## Plans for cliques -/

/-- However the vertices are split into units, and whatever the buffers hold, the search finds `n` tuples. -/
def Search.Finds (s : Search) (n : Nat) : Prop :=
  ∀ jobs : List (WorkUnit × List Buffers), (∀ job ∈ jobs, job.2.length = s.plan.depth - 1) →
    (jobs.flatMap fun job => job.1.vertices).Perm (List.range s.graph.vertexCount) →
      ∃ results, jobs.mapM (fun job => s.countUnit job.1 job.2) = .ok results ∧
        (results.map Prod.fst).sum = n

namespace Plan

/-- The options that ask for descending vertices, and for nothing else. -/
theorem descending_eq_ok {size : Nat} (hle : size ≤ maxPatternSize) (induced useCache : Bool) :
    (⟨induced, [], useCache⟩ : CompileOptions).descending size
      = .ok ⟨induced, (List.range (size - 1)).map fun a => (a, a + 1), useCache⟩ := by
  have hroom : ([] : List (Nat × Nat)).length + (size - 1) ≤ maxPatternSize := by
    rw [List.length_nil, Nat.zero_add]
    exact Nat.le_trans (Nat.sub_le size 1) hle
  rw [CompileOptions.descending, Word.checkTable,
    if_pos (Nat.le_trans (Nat.mul_le_mul_right CompileOptions.restrictionWidth hroom) (by decide))]
  rfl

theorem exists_plan_finds {p : Pattern} {o : CompileOptions} (hp : p.Connected)
    (ho : ∀ r ∈ o.restrictions, r.1 < p.size ∧ r.2 < p.size ∧ r.1 ≠ r.2) :
    ∃ plan, ofPattern p o = .ok plan ∧ plan.depth = p.size ∧
      ∀ (s : Search) (rows : Array (Array Nat)), s.plan = plan → HostGraph.ofAdjacency rows = .ok s.graph →
        s.graph.Undirected → p.embeddingCount o s.graph < Word.size → s.Finds (p.embeddingCount o s.graph) := by
  obtain ⟨plan, hplan, hdepth, htuples⟩ := tupleCount_ofPattern (Pattern.isConnected_of_connected hp) ho
  refine ⟨plan, hplan, hdepth, ?_⟩
  rintro s rows rfl hrows hg hfits jobs hbuffers hcover
  rw [← htuples hg] at hfits ⊢
  obtain ⟨results, hresults, hsum, -⟩ :=
    Search.countUnits_of_closed (HostGraph.closed_of_ofAdjacency hrows) hbuffers hcover hfits
  exact ⟨results, hresults, hsum⟩

/-- For every size of a pattern there is a plan that counts the cliques of that size once, and one without
restrictions that counts them in all orders. Where any two vertices are joined, the cliques are the sets of
vertices of that size. -/
theorem countUnit_clique {size : Nat} (hpos : 0 < size) (hle : size ≤ maxPatternSize) (induced useCache : Bool) :
    ∃ p o canonical plan, Pattern.clique size = .ok p ∧
      (⟨induced, [], useCache⟩ : CompileOptions).descending size = .ok o ∧
      ofPattern p o = .ok canonical ∧ ofPattern p ⟨induced, [], useCache⟩ = .ok plan ∧
      canonical.depth = size ∧ plan.depth = size ∧
      ∀ (s : Search) (rows : Array (Array Nat)), HostGraph.ofAdjacency rows = .ok s.graph → s.graph.Undirected →
        (s.plan = canonical → s.graph.cliqueCount size < Word.size → s.Finds (s.graph.cliqueCount size)) ∧
        (s.plan = plan → size.factorial * s.graph.cliqueCount size < Word.size →
          s.Finds (size.factorial * s.graph.cliqueCount size)) ∧
        ((∀ u v, u < s.graph.vertexCount → v < s.graph.vertexCount → u ≠ v → s.graph.Edge u v) →
          s.graph.cliqueCount size = s.graph.vertexCount.choose size) := by
  obtain ⟨p, hp, hsize, hcomplete⟩ := Pattern.clique_eq_ok hpos hle
  subst hsize
  have hneighbors : ∀ r ∈ (List.range (p.size - 1)).map (fun a => (a, a + 1)),
      r.1 < p.size ∧ r.2 < p.size ∧ r.1 ≠ r.2 := by
    intro r hr
    obtain ⟨a, ha, rfl⟩ := List.mem_map.mp hr
    have := List.mem_range.mp ha
    exact ⟨by omega, by omega, Nat.ne_of_lt (Nat.lt_succ_self a)⟩
  obtain ⟨canonical, hcanonical, hdepth, hfinds⟩ := exists_plan_finds (o := ⟨induced, _, useCache⟩)
    hcomplete.connected hneighbors
  obtain ⟨plan, hplan, hdepth', hfinds'⟩ := exists_plan_finds (o := ⟨induced, [], useCache⟩)
    hcomplete.connected nofun
  refine ⟨p, _, canonical, plan, hp, descending_eq_ok hle induced useCache, hcanonical, hplan, hdepth, hdepth', ?_⟩
  intro s rows hrows hg
  refine ⟨?_, ?_, fun h => HostGraph.cliqueCount_of_complete h _⟩
  · intro hs hfits
    have hcount := hcomplete.embeddingCount_descending (g := s.graph) (o := ⟨induced, _, useCache⟩) rfl
    rw [← hcount] at hfits ⊢
    exact hfinds s rows hs hrows hg hfits
  · intro hs hfits
    have hcount := hcomplete.embeddingCount (g := s.graph) (o := ⟨induced, [], useCache⟩) rfl
    rw [← hcount] at hfits ⊢
    exact hfinds' s rows hs hrows hg hfits

/-- Triangles among four vertices that are all joined: four of them, found in two units out of order, and each in
six orders. -/
theorem countUnit_clique_triangles :
    ∃ s t : Search, HostGraph.ofAdjacency #[#[1, 2, 3], #[0, 2, 3], #[0, 1, 3], #[0, 1, 2]] = .ok s.graph ∧
      t.graph = s.graph ∧ s.Finds 4 ∧ t.Finds 24 ∧
      ∃ p, Pattern.clique 3 = .ok p ∧ ofPattern p ⟨true, [(0, 1), (1, 2)], true⟩ = .ok s.plan ∧
        ofPattern p ⟨true, [], true⟩ = .ok t.plan := by
  let g : HostGraph := ⟨#[0, 3, 6, 9, 12], #[1, 2, 3, 0, 2, 3, 0, 1, 3, 0, 1, 2], 3⟩
  have hrows : HostGraph.ofAdjacency #[#[1, 2, 3], #[0, 2, 3], #[0, 1, 3], #[0, 1, 2]] = .ok g := by decide +kernel
  have hg : g.Undirected := (HostGraph.undirected_iff hrows).mpr (by decide +kernel)
  obtain ⟨p, o, canonical, plan, hp, ho, hcanonical, hplan, -, -, hfinds⟩ :=
    countUnit_clique (show 0 < 3 by decide) (by decide) true true
  obtain rfl : ⟨true, [(0, 1), (1, 2)], true⟩ = o := Except.ok.inj ho
  let s : Search := ⟨g, canonical, g.vertices, 2, .singly, .always, rfl⟩
  let t : Search := ⟨g, plan, g.vertices, 0, .singly, .never, rfl⟩
  have hentries : ∀ u < 4, ∀ v < 4, u ≠ v →
      v ∈ HostGraph.rowAt #[#[1, 2, 3], #[0, 2, 3], #[0, 1, 3], #[0, 1, 2]] u := by decide +kernel
  have hcomplete : ∀ u v, u < 4 → v < 4 → u ≠ v → g.Edge u v := fun u v hu hv huv =>
    (HostGraph.edge_ofAdjacency_iff hrows).mpr (hentries u hu v hv huv)
  have hcount : g.cliqueCount 3 = 4 := (hfinds s _ hrows hg).2.2 hcomplete
  refine ⟨s, t, hrows, rfl, ?_, ?_, p, hp, hcanonical, hplan⟩
  · have := (hfinds s _ hrows hg).1 rfl (by rw [hcount]; decide)
    rwa [hcount] at this
  · have := (hfinds t _ hrows hg).2.1 rfl (by rw [hcount]; decide)
    rwa [hcount] at this

end Plan

end PatternCount
