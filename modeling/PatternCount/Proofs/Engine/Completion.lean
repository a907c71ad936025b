import PatternCount.Proofs.Engine.Progress

/-!
# What a run has counted

When all ranks of a run have reported, all workers are done, so that every vertex has been handed out once and nothing
is left. Then the totals that the ranks have reported add up to the number of all tuples, the numbers of vertices that
they have handled to the number of all vertices, and each tally has gained what its rank has reported
(`Cooperation.Sound.complete`). How the vertices were spread over workers and ranks shows in the single totals only.
-/

namespace PatternCount

open WorkUnit Engine

/-- The totals of the second tally are those of the first and that much more. -/
structure Tally.Gained (t t' : Tally) (result handled : Nat) : Prop where
  total : ∃ total, t.total = .ok total ∧ t'.total = .ok (total + result)
  handledTotal : ∃ total, t.handledTotal = .ok total ∧ t'.handledTotal = .ok (total + handled)

theorem Tally.Grown.gained {t t' : Tally} {result handled : Nat} (h : t.Grown t' result handled)
    (hresult : t.results.toList.sum + result < Word.size) (hhandled : t.handled.toList.sum + handled < Word.size) :
    t.Gained t' result handled where
  total := by
    refine ⟨_, total_eq_ok (Nat.lt_of_le_of_lt (Nat.le_add_right _ _) hresult), ?_⟩
    rw [← h.results]
    exact total_eq_ok (h.results ▸ hresult)
  handledTotal := by
    refine ⟨_, handledTotal_eq_ok (Nat.lt_of_le_of_lt (Nat.le_add_right _ _) hhandled), ?_⟩
    rw [← h.handled]
    exact handledTotal_eq_ok (h.handled ▸ hhandled)

/-- A run has counted everything: of each rank there are the tallies before and after it, and what it has counted
and handled. -/
structure Engine.Complete (g : HostGraph) (p : Plan) (before after : List Tally) (c : Coordinator) : Prop where
  total : c.tryRunMajor = .ok (some (Level.tupleCount p.levels g))
  drained : c.isDrained = true
  gains : ∃ gains : List (Nat × Nat), gains.length = before.length ∧ after.length = before.length ∧
    (gains.map Prod.fst).sum = Level.tupleCount p.levels g ∧ (gains.map Prod.snd).sum = g.vertexCount ∧
    ∀ (rank : Nat) t t' gain, before[rank]? = some t → after[rank]? = some t' → gains[rank]? = some gain →
      c.results[rank]? = some (some gain.1) ∧ t.Gained t' gain.1 gain.2

namespace Cooperation

variable {g : HostGraph} {p : Plan} {t : Tally} {tallies : List Tally} {run : Cooperation} {r : RankRun}
  {c : Coordinator} {n chunkSize queueCapacity stealBatch : Nat} {layout : Layout} {setups : List (Engine × Tally)}

/-! ## The start -/

theorem crew_start (hlength : setups.length = c.layout.ranks) : (start g p c setups).crew = .start c := by
  refine congrArg (Crew.mk c) ?_
  rw [start, List.flatMap_map, List.flatMap_congr fun s _ => RankRun.workers_start g p _ s]
  refine List.eq_replicate_iff.mpr ⟨?_, fun w hw => ?_⟩
  · rw [List.length_flatMap, List.map_congr_left fun s _ => List.length_replicate, List.map_const',
      List.sum_replicate_nat, hlength]
    rfl
  · obtain ⟨_, -, hw⟩ := List.mem_flatMap.mp hw
    exact List.eq_of_mem_replicate hw

theorem sound_start (hg : g.Closed) (hn : g.vertexCount < 2 ^ 32)
    (hc : Coordinator.start g.vertexCount layout chunkSize queueCapacity stealBatch = .ok c)
    (hlength : setups.length = layout.ranks) (hroom : ∀ s ∈ setups, s.2.HasRoom g p layout.threadsPerRank) :
    (start g p c setups).Sound g p (setups.map fun s => { s.2 with iepRedundancy := 0 }) := by
  obtain ⟨hcount, hlayout, -, -⟩ := Coordinator.fields_of_start hc
  obtain ⟨hresults, hreported, hsmall⟩ := Coordinator.reports_of_start hc
  have hcrew := crew_start (g := g) (p := p) (hlength.trans (congrArg Layout.ranks hlayout.symm))
  exact {
    closed := hg
    room := List.forall_mem_map.mpr fun s hs => by
      obtain ⟨hsize, hsize', hsize'', hfits, hfits'⟩ := hroom s hs
      exact hlayout ▸ ⟨hsize, hsize', hsize'', hfits, hfits'⟩
    crew := hcrew ▸ Crew.sound_start hn hc
    filled := hcrew ▸ Crew.filled_start hc
    vertexCount := hcount
    length := by rw [start, List.length_map, hlength, hlayout]
    small := by
      obtain ⟨⟨hworkers, -⟩, -⟩ := Coordinator.start_eq_ok hc
      rw [start, hlayout]
      exact Nat.lt_of_le_of_lt (Nat.le_mul_of_pos_right _ (Nat.pos_of_mul_pos_left hworkers)) hsmall
    rank := fun i r hi => by
      rw [start, List.getElem?_map] at hi
      obtain ⟨s, hs, rfl⟩ := Option.map_eq_some_iff.mp hi
      refine ⟨_, by rw [List.getElem?_map, hs]; rfl, rfl, rfl, List.length_replicate, ?_, rfl, ?_⟩
      · intro m hm
        rw [List.eq_of_mem_replicate hm]
        exact Member.sound_start _
      · show c.results[i]? = some none
        rw [hresults, Array.getElem?_replicate, if_pos (hlength ▸ (List.getElem?_eq_some_iff.mp hs).1)]
    results_size := by rw [start, hresults, Array.size_replicate, hlayout]
    reported := by
      show c.reported = _
      rw [hreported, start, List.map_map]
      exact (List.sum_eq_zero_iff_forall_eq_nat.mpr (List.forall_mem_map.mpr fun s _ => rfl)).symm }

/-! ## The end -/

/-- Nothing fails in a run. -/
theorem Sound.not_failed (h : run.Sound g p tallies) (hr : r ∈ run.ranks) (f : Fault) :
    (∀ m ∈ r.members, m.worker.call ≠ .failed f) ∧ r.report ≠ some (.failed f) := by
  obtain ⟨rank, hrank⟩ := List.getElem?_of_mem hr
  obtain ⟨t, -, hsound⟩ := h.rank rank r hrank
  refine ⟨fun m hm => ?_, fun hreport => ?_⟩
  · obtain ⟨worker, hworker⟩ := List.getElem?_of_mem hm
    exact h.crew.not_failed (List.mem_of_getElem? (getElem?_crew h.length_members hrank hworker)) f
  · have haccounts := hsound.accounts
    rw [RankRun.Accounts, hreport] at haccounts
    exact haccounts

theorem Sound.concluded (h : run.Sound g p tallies) {rank : Nat} (hr : run.ranks[rank]? = some r)
    (ht : tallies[rank]? = some t) (hreport : r.report = some .finished) :
    r.Concluded t ∧ run.shared.results[rank]? = some (some r.total) := by
  obtain ⟨t', ht', hsound⟩ := h.rank rank r hr
  obtain rfl := Option.some.inj (ht.symm.trans ht')
  have haccounts := hsound.accounts
  rw [RankRun.Accounts, hreport] at haccounts
  exact haccounts

theorem Sound.isDone_of_reported (h : run.Sound g p tallies) (hr : r ∈ run.ranks)
    (hreport : r.report = some .finished) : ∀ m ∈ r.members, m.worker.call = .finished none := by
  obtain ⟨rank, hrank⟩ := List.getElem?_of_mem hr
  obtain ⟨t, ht, -⟩ := h.rank rank r hrank
  exact (h.concluded hrank ht hreport).1.1

/-- When all workers are done, all vertices have been received and nothing is left. -/
theorem Sound.received_of_done (h : run.Sound g p tallies)
    (hdone : ∀ r ∈ run.ranks, ∀ m ∈ r.members, m.worker.call = .finished none) :
    bag (run.ranks.flatMap RankRun.received) = span 0 g.vertexCount ∧ run.shared.isDrained = true := by
  have hidle : ∀ w ∈ run.crew.workers, w.call = .finished none := by
    intro w hw
    obtain ⟨r, hr, hw⟩ := List.mem_flatMap.mp hw
    obtain ⟨m, hm, rfl⟩ := List.mem_map.mp hw
    exact hdone r hr m hm
  have hbag : bag run.crew.received = span 0 run.shared.vertexCount := h.crew.bag_received hidle
  rw [received_crew, h.vertexCount] at hbag
  exact ⟨hbag, Coordinator.isDrained_iff.mpr (h.crew.drained hidle)⟩

/-- What ranks have counted adds up to all tuples, and what they have handled to all vertices. -/
theorem Sound.sums_of_done (h : run.Sound g p tallies)
    (hdone : ∀ r ∈ run.ranks, ∀ m ∈ r.members, m.worker.call = .finished none) :
    (run.ranks.map RankRun.total).sum = Level.tupleCount p.levels g ∧
      (run.ranks.map RankRun.handled).sum = g.vertexCount := by
  obtain ⟨hbag, -⟩ := h.received_of_done hdone
  have heach : ∀ r ∈ run.ranks, r.total = p.yield g (bag r.received) ∧ r.handled = volume r.received := by
    intro r hr
    obtain ⟨rank, hrank⟩ := List.getElem?_of_mem hr
    obtain ⟨t, -, hsound⟩ := h.rank rank r hrank
    exact hsound.total_eq (hdone r hr)
  constructor
  · rw [List.map_congr_left fun r hr => (heach r hr).1, ← Plan.yield_span, ← hbag, bag_flatMap, Plan.yield_sum,
      List.map_map]
    rfl
  · rw [List.map_congr_left fun r hr => (heach r hr).2, ← volume_flatMap, ← card_bag, hbag, card_span, Nat.sub_zero]

/-- The tally of a rank has grown by what its workers have counted. -/
theorem Sound.grown (h : run.Sound g p tallies) {rank : Nat} (hr : run.ranks[rank]? = some r)
    (ht : tallies[rank]? = some t) (hconcluded : r.Concluded t) :
    t.Grown r.tally r.total r.handled ∧ r.tally.iepRedundancy = t.iepRedundancy := by
  obtain ⟨tally, hadd, hgrown⟩ := h.addShares_eq_ok hr ht hconcluded.1
  obtain rfl : r.tally = tally := (Prod.mk.inj (hconcluded.2.symm.trans hadd)).2
  exact hgrown

theorem Sound.gained (h : run.Sound g p tallies) {rank : Nat} (hr : run.ranks[rank]? = some r)
    (ht : tallies[rank]? = some t) (hconcluded : r.Concluded t) : t.Gained r.tally r.total r.handled := by
  obtain ⟨hgrown, -⟩ := h.grown hr ht hconcluded
  obtain ⟨t', ht', hsound⟩ := h.rank rank r hr
  obtain ⟨htotal, hhandled⟩ := hsound.total_eq hconcluded.1
  have hfits := h.fits (List.mem_of_getElem? ht) (h.bag_received_le (List.mem_of_getElem? hr))
  rw [← htotal, ← hhandled] at hfits
  exact hgrown.gained hfits.1 hfits.2

theorem Sound.tupleCount_lt (h : run.Sound g p tallies) : Level.tupleCount p.levels g < Word.size := by
  obtain ⟨r, hr⟩ := h.exists_rank (Nat.pos_of_mul_pos_right h.crew.shared.workers_pos)
  obtain ⟨t, ht, -⟩ := h.rank 0 r hr
  exact Nat.lt_of_le_of_lt (Nat.le_add_left _ _) (h.room t (List.mem_of_getElem? ht)).results_fit

/-- When all ranks have reported, each slot holds what its rank has counted. -/
theorem Sound.results_of_reported (h : run.Sound g p tallies)
    (hreports : ∀ r ∈ run.ranks, r.report = some .finished) :
    run.shared.results.toList = (run.ranks.map RankRun.total).map some := by
  refine List.ext_getElem? fun rank => ?_
  rw [Array.getElem?_toList, List.getElem?_map, List.getElem?_map]
  cases hr : run.ranks[rank]? with
  | none =>
      refine Array.getElem?_eq_none ?_
      rw [h.results_size, ← h.length]
      exact List.getElem?_eq_none_iff.mp hr
  | some r =>
      obtain ⟨t, ht, -⟩ := h.rank rank r hr
      exact (h.concluded hr ht (hreports r (List.mem_of_getElem? hr))).2

/-- When all ranks have reported, their totals are added up to the number of all tuples. -/
theorem Sound.tryRunMajor_eq (h : run.Sound g p tallies) (hreports : ∀ r ∈ run.ranks, r.report = some .finished) :
    run.shared.tryRunMajor = .ok (some (Level.tupleCount p.levels g)) := by
  have hreported : run.shared.reported = run.ranks.length := by
    rw [h.reported, List.map_congr_left fun r hr => show r.isReported = 1 from if_pos (hreports r hr),
      List.map_const', List.sum_replicate_nat, Nat.mul_one]
  have hfits := h.tupleCount_lt
  rw [← (h.sums_of_done fun r hr => h.isDone_of_reported hr (hreports r hr)).1] at hfits ⊢
  exact Coordinator.tryRunMajor_eq_ok (by rw [hreported, h.length]) (h.results_of_reported hreports) hfits

/-- When all ranks have reported, everything has been counted. -/
theorem Sound.complete (h : run.Sound g p tallies) (hlength : tallies.length = run.ranks.length)
    (hreports : ∀ r ∈ run.ranks, r.report = some .finished) :
    Complete g p tallies (run.ranks.map RankRun.tally) run.shared := by
  have hdone : ∀ r ∈ run.ranks, ∀ m ∈ r.members, m.worker.call = .finished none := fun r hr =>
    h.isDone_of_reported hr (hreports r hr)
  obtain ⟨htotals, hhandled⟩ := h.sums_of_done hdone
  refine ⟨h.tryRunMajor_eq hreports, (h.received_of_done hdone).2, run.ranks.map fun r => (r.total, r.handled),
    ?_, ?_, ?_, ?_, ?_⟩
  · rw [List.length_map, hlength]
  · rw [List.length_map, hlength]
  · rw [List.map_map]
    exact htotals
  · rw [List.map_map]
    exact hhandled
  · intro rank t t' gain ht ht' hgain
    rw [List.getElem?_map] at ht' hgain
    obtain ⟨r, hr, rfl⟩ := Option.map_eq_some_iff.mp ht'
    rw [hr] at hgain
    obtain rfl := Option.some.inj hgain
    obtain ⟨hconcluded, hslot⟩ := h.concluded hr ht (hreports r (List.mem_of_getElem? hr))
    exact ⟨hslot, h.gained hr ht hconcluded⟩

end Cooperation

end PatternCount
