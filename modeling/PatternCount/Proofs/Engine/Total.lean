import PatternCount.Proofs.Engine.InOrder

/-!
# The total of a run

However ranks share a coordinator, they come to the same total. They may run side by side, their turns given by any
schedule, or one after the other in any order (`runRanks`), and their engines need not be configured alike: the total
that they report is the number of all tuples, which is what a run of one rank counts
(`Cooperation.run_complete`).

To carry out ranks one after the other is to give each of them all its turns at once (`inOrder`). So there is one
argument for all runs, that of a cooperation.
-/

namespace PatternCount

open WorkUnit Engine

/-- Carries out ranks one after the other, each with its own engine and tally; the first fault if any of them
fails. -/
def Engine.runRanks (g : HostGraph) (p : Plan) : (order : List Nat) → List (Engine × Tally) → Coordinator →
    Except Fault (List (Engine × Tally) × Coordinator)
  | [], setups, c => .ok (setups, c)
  | rank :: rest, setups, c =>
      match setups[rank]? with
      | none => .error (.indexOutOfBounds setups.length rank)
      | some (e, t) =>
          match e.runRank g p t c rank with
          | (.ok (), t, c) => runRanks g p rest (setups.set rank (e, t)) c
          | (.error f, _, _) => .error f

theorem Engine.Complete.of_reset {g : HostGraph} {p : Plan} {setups : List (Engine × Tally)} {after : List Tally}
    {c : Coordinator} (h : Complete g p (setups.map fun s => { s.2 with iepRedundancy := 0 }) after c) :
    Complete g p (setups.map Prod.snd) after c := by
  obtain ⟨htotal, hdrained, gains, hlength, hlength', hcounted, hhandled, hgains⟩ := h
  rw [List.length_map] at hlength hlength'
  refine ⟨htotal, hdrained, gains, ?_, ?_, hcounted, hhandled, fun rank t t' gain ht ht' hgain => ?_⟩
  · rw [List.length_map, hlength]
  · rw [List.length_map, hlength']
  · rw [List.getElem?_map] at ht
    obtain ⟨s, hs, rfl⟩ := Option.map_eq_some_iff.mp ht
    obtain ⟨hslot, hgained⟩ := hgains rank _ t' gain (by rw [List.getElem?_map, hs]; rfl) ht' hgain
    exact ⟨hslot, hgained.total, hgained.handledTotal⟩

namespace Cooperation

variable {g : HostGraph} {p : Plan} {tallies : List Tally} {run : Cooperation} {rank : Nat} {r : RankRun}
  {c : Coordinator} {n chunkSize queueCapacity stealBatch : Nat} {layout : Layout} {setups : List (Engine × Tally)}

/-! ## Ranks one after the other -/

/-- The turns of ranks that are carried out one after the other. -/
def inOrder (turns threads : Nat) (order : List Nat) : List Turn := order.flatMap (rankTurns turns threads)

/-- A rank has reported, and the tally is what it has come to. -/
def CarriedOut (run : Cooperation) (setups : List (Engine × Tally)) (rank : Nat) : Prop :=
  ∃ s r, setups[rank]? = some s ∧ run.ranks[rank]? = some r ∧ r.report = some .finished ∧ s.2 = r.tally

theorem reports_of_carriedOut (hranks : ∀ rank < run.ranks.length, run.CarriedOut setups rank) :
    ∀ r ∈ run.ranks, r.report = some .finished := by
  intro r hr
  obtain ⟨rank, hrank⟩ := List.getElem?_of_mem hr
  obtain ⟨-, r', -, hr', hreport, -⟩ := hranks rank (List.getElem?_eq_some_iff.mp hrank).1
  rwa [Option.some.inj (hrank.symm.trans hr')]

theorem tallies_of_carriedOut (hlength : run.ranks.length = setups.length)
    (hranks : ∀ rank < run.ranks.length, run.CarriedOut setups rank) :
    run.ranks.map RankRun.tally = setups.map Prod.snd := by
  refine List.ext_getElem (by rw [List.length_map, List.length_map, hlength]) fun rank hrank hrank' => ?_
  rw [List.length_map] at hrank hrank'
  obtain ⟨s, r, hs, hr, -, htally⟩ := hranks rank hrank
  rw [List.getElem?_eq_getElem hrank'] at hs
  rw [List.getElem?_eq_getElem hrank] at hr
  rw [List.getElem_map, List.getElem_map, Option.some.inj hs, Option.some.inj hr, htally]

/-- Ranks that are at their start come to what `Engine.runRanks` comes to, and leave the others as they are. -/
theorem Sound.runRanks_eq {turns threads : Nat} (order : List Nat) {run : Cooperation} {setups : List (Engine × Tally)}
    (h : run.Sound g p tallies) (hthreads : run.shared.layout.threadsPerRank = threads) (hnodup : order.Nodup)
    (hfresh : ∀ rank ∈ order, ∃ s, setups[rank]? = some s ∧ run.ranks[rank]? = some (.start g p threads s) ∧
      s.1.checkRun g s.2 run.shared = .ok ())
    (hwrap : run.stepsWrap (inOrder turns threads order) = false)
    (hturns : turnsNeeded g.vertexCount run.shared.layout.workers ≤ turns) :
    ∃ setups', runRanks g p order setups run.shared = .ok (setups', (run.steps (inOrder turns threads order)).shared) ∧
      setups'.length = setups.length ∧
      (∀ rank ∈ order, (run.steps (inOrder turns threads order)).CarriedOut setups' rank) ∧
      ∀ rank ∉ order, setups'[rank]? = setups[rank]? ∧
        (run.steps (inOrder turns threads order)).ranks[rank]? = run.ranks[rank]? := by
  induction order generalizing run setups with
  | nil => exact ⟨setups, rfl, rfl, nofun, fun _ _ => ⟨rfl, rfl⟩⟩
  | cons rank rest ih =>
      rw [inOrder, List.flatMap_cons, stepsWrap_append, Bool.or_eq_false_iff] at hwrap
      rw [inOrder, List.flatMap_cons, steps_append]
      obtain ⟨hnot, hnodup⟩ := List.nodup_cons.mp hnodup
      obtain ⟨⟨⟨e, t⟩, hs, hr, hcheck⟩, hfresh⟩ := List.forall_mem_cons.mp hfresh
      obtain ⟨r, hreport, hranks, hrun⟩ := h.runRank_eq hthreads hwrap.1 hr hcheck hturns
      obtain ⟨hsound, hlater⟩ := h.steps _ hwrap.1
      have hothers : ∀ i ≠ rank, (setups.set rank (e, r.tally))[i]? = setups[i]? ∧
          (run.steps (rankTurns turns threads rank)).ranks[i]? = run.ranks[i]? := fun i hi => by
        rw [hranks]
        exact ⟨List.getElem?_set_ne (Ne.symm hi), List.getElem?_set_ne (Ne.symm hi)⟩
      have hfresh' : ∀ i ∈ rest, ∃ s, (setups.set rank (e, r.tally))[i]? = some s ∧
          (run.steps (rankTurns turns threads rank)).ranks[i]? = some (.start g p threads s) ∧
          s.1.checkRun g s.2 (run.steps (rankTurns turns threads rank)).shared = .ok () := fun i hi => by
        obtain ⟨s, hs, hr, hcheck⟩ := hfresh i hi
        obtain ⟨hsetup, hrank⟩ := hothers i fun heq => hnot (heq ▸ hi)
        exact ⟨s, hsetup.trans hs, hrank.trans hr, checkRun_later hlater hcheck⟩
      obtain ⟨setups', hruns, hlength, hdone, hsame⟩ := ih hsound (by rw [hlater.layout, hthreads]) hnodup hfresh'
        hwrap.2 (by rwa [hlater.layout])
      refine ⟨setups', ?_, ?_, List.forall_mem_cons.mpr ⟨?_, hdone⟩, fun i hi => ?_⟩
      · rw [runRanks, hs]
        simp only [hrun]
        exact hruns
      · rw [hlength, List.length_set]
      · obtain ⟨hsetup, hrank⟩ := hsame rank hnot
        refine ⟨(e, r.tally), r, hsetup.trans ?_, hrank.trans ?_, hreport, rfl⟩
        · exact getElem?_set_of_some hs
        · rw [hranks]
          exact getElem?_set_of_some hr
      · obtain ⟨hsetup, hrank⟩ := hsame i (List.not_mem_of_not_mem_cons hi)
        obtain ⟨hsetup', hrank'⟩ := hothers i (List.ne_of_not_mem_cons hi)
        exact ⟨hsetup.trans hsetup', hrank.trans hrank'⟩

/-- Ranks that are carried out one after the other, in any order, count everything. -/
theorem runRanks_complete (hg : g.Closed) (hn : g.vertexCount < 2 ^ 32)
    (hc : Coordinator.start g.vertexCount layout chunkSize queueCapacity stealBatch = .ok c)
    (hlength : setups.length = layout.ranks) (hcheck : ∀ s ∈ setups, s.1.checkRun g s.2 c = .ok ())
    (hroom : ∀ s ∈ setups, s.2.HasRoom g p layout.threadsPerRank) {order : List Nat}
    (horder : order.Perm (List.range layout.ranks))
    (hwrap : (start g p c setups).stepsWrap
      (inOrder (turnsNeeded g.vertexCount layout.workers) layout.threadsPerRank order) = false) :
    ∃ setups' c', runRanks g p order setups c = .ok (setups', c') ∧
      Complete g p (setups.map Prod.snd) (setups'.map Prod.snd) c' := by
  have hsound := sound_start hg hn hc hlength hroom
  obtain ⟨-, rfl, -, -⟩ := Coordinator.fields_of_start hc
  have hfresh : ∀ rank ∈ order, ∃ s, setups[rank]? = some s ∧
      (start g p c setups).ranks[rank]? = some (.start g p c.layout.threadsPerRank s) ∧
      s.1.checkRun g s.2 c = .ok () := fun rank hrank => by
    have hlt : rank < setups.length := hlength ▸ List.mem_range.mp (horder.mem_iff.mp hrank)
    refine ⟨setups[rank], List.getElem?_eq_getElem hlt, ?_, hcheck _ (List.getElem_mem hlt)⟩
    rw [start, List.getElem?_map, List.getElem?_eq_getElem hlt]
    rfl
  obtain ⟨setups', hruns, hlength', hdone, -⟩ := hsound.runRanks_eq order rfl
    (horder.nodup_iff.mpr List.nodup_range) hfresh hwrap (Nat.le_refl _)
  obtain ⟨hend, hlater⟩ := hsound.steps _ hwrap
  have hranks : ∀ rank < c.layout.ranks, CarriedOut _ setups' rank := fun rank hrank =>
    hdone rank (horder.mem_iff.mpr (List.mem_range.mpr hrank))
  have hcount : ((start g p c setups).steps _).ranks.length = c.layout.ranks :=
    hend.length.trans (congrArg Layout.ranks hlater.layout)
  have hreports := reports_of_carriedOut (hcount ▸ hranks)
  have htallies := tallies_of_carriedOut (by rw [hcount, hlength', hlength]) (hcount ▸ hranks)
  have hcomplete := (hend.complete (by rw [List.length_map, hlength, hcount]) hreports).of_reset
  exact ⟨setups', _, hruns, htallies ▸ hcomplete⟩

/-! ## One rank -/

/-- A run of one rank counts the tuples. -/
theorem count_eq_ok {e : Engine} {t : Tally} (hg : g.Closed) (hn : g.vertexCount < 2 ^ 32) (ht : e.tally = .ok t)
    (hc : e.coordinator g (.single t.numThreads) = .ok c) (hfits : Level.tupleCount p.levels g < Word.size)
    (hwrap : (start g p c [(e, t)]).stepsWrap
      (inOrder (turnsNeeded g.vertexCount (Layout.single t.numThreads).workers) t.numThreads [0]) = false) :
    e.count g p = .ok (Level.tupleCount p.levels g) := by
  obtain ⟨hslotted, hnum, hzero, hzero'⟩ := Tally.slotted_ofWorkers ht
  obtain ⟨hcount, hlayout, -, -⟩ := Coordinator.fields_of_start hc
  have hcheck : ∀ s ∈ [(e, t)], s.1.checkRun g s.2 c = .ok () := List.forall_mem_singleton.mpr
    (checkRun_eq_ok.mpr ⟨Nat.ne_of_gt hslotted.pos, Nat.le_of_eq hnum, congrArg Layout.threadsPerRank hlayout, hcount⟩)
  have hroom : ∀ s ∈ [(e, t)], s.2.HasRoom g p t.numThreads := by
    refine List.forall_mem_singleton.mpr ⟨hslotted.results, hslotted.handled, hslotted.elapsed, ?_, ?_⟩
    · rwa [hzero, Nat.zero_add]
    · rw [hzero', Nat.zero_add]
      exact Nat.lt_trans hn (by decide)
  obtain ⟨setups', c', hruns, hcomplete⟩ := runRanks_complete hg hn hc rfl hcheck hroom (List.Perm.refl [0]) hwrap
  rcases hrun : e.runRank g p t c 0 with ⟨done, t', c''⟩
  cases done with
  | error f => simp [runRanks, hrun] at hruns
  | ok _ =>
      obtain ⟨rfl, rfl⟩ : [(e, t')] = setups' ∧ c'' = c' := by simpa [runRanks, hrun] using hruns
      obtain ⟨gains, hlength, -, hsum, -, hgains⟩ := hcomplete.gains
      obtain ⟨gain, rfl⟩ := List.length_eq_one_iff.mp hlength
      obtain ⟨-, ⟨total, htotal, htotal'⟩, -⟩ := hgains 0 t t' gain rfl rfl rfl
      obtain rfl : 0 = total := by
        rw [Tally.total_eq_ok (by rw [hzero]; decide), hzero] at htotal
        exact Except.ok.inj htotal
      rw [Nat.zero_add, show gain.1 = _ from hsum] at htotal'
      simp only [count, ht, run, hc, hrun, bind, Except.bind]
      exact htotal'

/-! ## All runs -/

/-- Ranks that share a coordinator, each with an engine and a tally that fit it. Whatever the schedule of their turns,
if no cursor wraps around: nothing fails; all of them report if they only go on; and once they have, their total is
the number of all tuples, the vertices that they have handled are all vertices, each tally has gained what its rank
has reported, and the coordinator is drained. The same holds of ranks that are carried out one after the other, in
any order, and the number is what a run of one rank counts. -/
theorem run_complete {rows : Array (Array Nat)} (hg : HostGraph.ofAdjacency rows = .ok g)
    (hc : Coordinator.start g.vertexCount layout chunkSize queueCapacity stealBatch = .ok c)
    (hlength : setups.length = layout.ranks) (hcheck : ∀ s ∈ setups, s.1.checkRun g s.2 c = .ok ())
    (hroom : ∀ s ∈ setups, s.2.HasRoom g p layout.threadsPerRank) :
    (∀ schedule, (start g p c setups).stepsWrap schedule = false →
      let run := (start g p c setups).steps schedule
      (∀ r ∈ run.ranks, ∀ f, (∀ m ∈ r.members, m.worker.call ≠ .failed f) ∧ r.report ≠ some (.failed f)) ∧
        (∀ more, Fair layout g.vertexCount more → run.stepsWrap more = false →
          ∀ r ∈ (run.steps more).ranks, r.report = some .finished) ∧
        ((∀ r ∈ run.ranks, r.report = some .finished) →
          Complete g p (setups.map Prod.snd) (run.ranks.map RankRun.tally) run.shared)) ∧
      (∀ order, order.Perm (List.range layout.ranks) → (start g p c setups).stepsWrap
          (inOrder (turnsNeeded g.vertexCount layout.workers) layout.threadsPerRank order) = false →
        ∃ setups' c', runRanks g p order setups c = .ok (setups', c') ∧
          Complete g p (setups.map Prod.snd) (setups'.map Prod.snd) c') ∧
      ∀ (e : Engine) t c₁, e.tally = .ok t → e.coordinator g (.single t.numThreads) = .ok c₁ →
        (start g p c₁ [(e, t)]).stepsWrap
          (inOrder (turnsNeeded g.vertexCount (Layout.single t.numThreads).workers) t.numThreads [0]) = false →
        e.count g p = .ok (Level.tupleCount p.levels g) := by
  have hclosed := HostGraph.closed_of_ofAdjacency hg
  have hn : g.vertexCount < 2 ^ 32 := by
    rw [HostGraph.vertexCount_of_ofAdjacency hg]
    exact Nat.lt_of_le_of_lt (HostGraph.ofAdjacency_eq_ok hg).1 (by decide)
  have hsound := sound_start hclosed hn hc hlength hroom
  obtain ⟨-, hlayout, -, -⟩ := Coordinator.fields_of_start hc
  refine ⟨fun schedule hwrap => ?_, fun order horder hwrap => ?_, fun e t c₁ ht hc₁ hwrap => ?_⟩
  · obtain ⟨h, hlater⟩ := hsound.steps schedule hwrap
    refine ⟨fun r hr => h.not_failed hr, fun more hfair hmore => h.finishes hmore ?_, fun hreports => ?_⟩
    · rw [hlater.layout]
      exact hlayout ▸ hfair
    · refine (h.complete ?_ hreports).of_reset
      rw [List.length_map, hlength, h.length, hlater.layout]
      exact congrArg Layout.ranks hlayout.symm
  · exact runRanks_complete hclosed hn hc hlength hcheck hroom horder hwrap
  · exact count_eq_ok hclosed hn ht hc₁ hsound.tupleCount_lt hwrap

/-- Triangles, counted by two ranks that differ in the use of caches and in how they spread work: side by side, one
after the other, and by a rank alone. -/
theorem run_complete_two :
    ∃ g p c schedule, ∃ (e₀ e₁ : Engine) (t : Tally) (setups : List (Engine × Tally)) (c' : Coordinator),
      HostGraph.ofAdjacency #[#[0, 1, 2], #[0, 2], #[1]] = .ok g ∧
      Coordinator.start g.vertexCount ⟨2, 1⟩ 1 1 1 = .ok c ∧
      e₀.config.cache = .always ∧ e₁.config.cache = .never ∧ e₀.config.fanOut = .never ∧ e₁.config.fanOut = .always ∧
      (∀ r ∈ ((start g p c [(e₀, t), (e₁, t)]).steps schedule).ranks, r.report = some .finished) ∧
      Complete g p [t, t] (((start g p c [(e₀, t), (e₁, t)]).steps schedule).ranks.map RankRun.tally)
        ((start g p c [(e₀, t), (e₁, t)]).steps schedule).shared ∧
      runRanks g p [1, 0] [(e₀, t), (e₁, t)] c = .ok (setups, c') ∧ Complete g p [t, t] (setups.map Prod.snd) c' ∧
      e₀.count g p = .ok (Level.tupleCount p.levels g) := by
  let levels : Array Level := #[⟨.ofBase .all, none⟩, ⟨.ofBase (.adjacency 0), some ⟨none⟩⟩,
    ⟨(SetExpr.ofBase (.candidates 1)).intersect (.cached 1 1), none⟩]
  let p : Plan := ⟨levels, LevelInfo.ofLevels levels, by decide +kernel, rfl⟩
  let g : HostGraph := ⟨#[0, 3, 5, 6], #[0, 1, 2, 0, 2, 1], 3⟩
  let c : Coordinator :=
    { vertexCount := 3, layout := ⟨2, 1⟩, chunkSize := 1, stealBatch := 1
      cursors := #[⟨0, 1⟩, ⟨1, 3⟩], backlogs := #[#[], #[]], queue := ⟨1, []⟩
      produced := 0, claimed := 0, results := #[none, none], reported := 0 }
  let e₀ : Engine := ⟨⟨1, .never, .always, 1, 1, 1⟩, ⟨1, .singly, fun _ => .zero⟩, rfl⟩
  let e₁ : Engine := ⟨⟨1, .always, .never, 1, 1, 1⟩, ⟨1, .singly, fun _ => .one⟩, rfl⟩
  let t : Tally := ⟨1, #[0], #[0], #[.zero], 0⟩
  let c₁ : Coordinator :=
    { vertexCount := 3, layout := ⟨1, 1⟩, chunkSize := 1, stealBatch := 1
      cursors := #[⟨0, 3⟩], backlogs := #[#[]], queue := ⟨1, []⟩
      produced := 0, claimed := 0, results := #[none], reported := 0 }
  let first : List Turn := (List.replicate 88 [.work 1 0, .work 0 0]).flatten
  let last : List Turn := (List.replicate 3 [.conclude 0, .conclude 1]).flatten
  let run : Cooperation := start g p c [(e₀, t), (e₁, t)]
  have hg : HostGraph.ofAdjacency #[#[0, 1, 2], #[0, 2], #[1]] = .ok g := by decide +kernel
  have hc : Coordinator.start g.vertexCount ⟨2, 1⟩ 1 1 1 = .ok c := by decide +kernel
  have hcheck : ∀ s ∈ [(e₀, t), (e₁, t)], s.1.checkRun g s.2 c = .ok () := by decide +kernel
  have hroom : ∀ s ∈ [(e₀, t), (e₁, t)], s.2.HasRoom g p 1 := by
    intro s hs
    have ht : s.2 = t := by rcases List.mem_pair.mp hs with rfl | rfl <;> rfl
    rw [ht]
    exact ⟨rfl, rfl, rfl, Nat.lt_of_le_of_lt (Nat.add_le_add_left Level.tupleCount_le _) (by decide), by decide⟩
  have hfair : Fair ⟨2, 1⟩ g.vertexCount (first ++ last) := ⟨first, last, rfl, by decide +kernel, by decide +kernel⟩
  have hwrap : run.stepsWrap (first ++ last) = false := by decide +kernel
  obtain ⟨hside, horder, hcount⟩ := run_complete (p := p) hg hc rfl hcheck hroom
  have hreports : ∀ r ∈ (run.steps (first ++ last)).ranks, r.report = some .finished :=
    (hside [] rfl).2.1 (first ++ last) hfair hwrap
  obtain ⟨setups, c', hruns, hcomplete⟩ := horder [1, 0] (by decide) (by decide +kernel)
  exact ⟨g, p, c, first ++ last, e₀, e₁, t, setups, c', hg, hc, rfl, rfl, rfl, rfl, hreports,
    (hside (first ++ last) hwrap).2.2 hreports, hruns, hcomplete,
    hcount e₀ t c₁ (by decide +kernel) (by decide +kernel) (by decide +kernel)⟩

end Cooperation

end PatternCount
