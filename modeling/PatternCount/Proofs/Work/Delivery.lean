import PatternCount.Proofs.Work.Crew

/-!
# Every vertex is handed out once

What follows for the workers of a crew, however their steps are interleaved: no vertex is handed out twice, no
call fails or goes on without end (`Sound.finishes`), and once every worker has got nothing from its last call,
all vertices have been handed out (`Sound.bag_received`) and nothing is left anywhere.

The last part is where losses could hide. A worker that gives up has found its slice and its backlog empty, and
they have stayed so; and nobody will look into the queue again, so that nothing is left there (`Sound.drained`).
-/

namespace PatternCount.Crew

open WorkUnit

variable {crew : Crew} {g n chunkSize queueCapacity stealBatch : Nat} {layout : Layout} {c : Coordinator}
  {schedule : List Nat}

theorem sum_start {M : Type} [AddCommMonoid M] {f : Worker → M} (hf : f .start = 0) :
    ((start c).workers.map f).sum = 0 := by
  rw [start, List.map_replicate, List.sum_replicate, hf, nsmul_zero]

theorem sound_start (hn : n < 2 ^ 32)
    (hc : Coordinator.start n layout chunkSize queueCapacity stealBatch = .ok c) : (start c).Sound := by
  obtain ⟨hcount, hlayout, hproduced, hclaimed⟩ := Coordinator.fields_of_start hc
  exact {
    shared := Coordinator.sound_of_start hn hc
    length := List.length_replicate
    worker := fun g w hw => by
      obtain rfl := List.eq_of_mem_replicate (List.mem_of_getElem? hw)
      exact Worker.sound_start
    watched := fun hqueue =>
      absurd (Coordinator.waiting_eq_nil_iff.mp (Coordinator.waiting_of_start hc)).1 hqueue
    cover := by
      rw [sum_start rfl, zero_add]
      exact (Coordinator.stock_of_start hc).trans (by rw [start, hcount])
    produced := by
      rw [sum_start rfl]
      show c.produced + 0 + c.unclaimed.card = c.vertexCount
      rw [hproduced, hcount, Coordinator.unclaimed_of_start hc, card_span]
      omega
    claimed := by
      rw [sum_start rfl]
      exact hclaimed }

/-! ## Calls end -/

theorem step_of_ne {v : Nat} (hv : v ≠ g) : (crew.step v).workers[g]? = crew.workers[g]? := by
  unfold Crew.step
  split
  · exact List.getElem?_set_ne hv
  · rfl

theorem length_run (schedule : List Nat) (crew : Crew) :
    (crew.run schedule).workers.length = crew.workers.length := by
  induction schedule generalizing crew with
  | nil => rfl
  | cons g rest ih =>
      refine (ih (crew.step g)).trans ?_
      unfold Crew.step
      split
      · exact List.length_set
      · rfl

/-- At some point of the schedule the last call of worker `g` has ended. -/
def Finishes (crew : Crew) (g : Nat) (schedule : List Nat) : Prop :=
  ∃ first, first <+: schedule ∧ ∃ w u, (crew.run first).workers[g]? = some w ∧ w.call = .finished u

theorem Finishes.cons {v : Nat} (h : (crew.step v).Finishes g schedule) : crew.Finishes g (v :: schedule) := by
  obtain ⟨first, hfirst, hend⟩ := h
  exact ⟨v :: first, List.cons_prefix_cons.mpr ⟨rfl, hfirst⟩, hend⟩

/-- A worker whose call does not end takes as many steps as the schedule gives it. -/
theorem Sound.steps_eq : ∀ {schedule : List Nat} {crew : Crew} {w : Worker}, crew.Sound →
    crew.runWraps schedule = false → crew.workers[g]? = some w → ¬ crew.Finishes g schedule →
      ∃ w', (crew.run schedule).workers[g]? = some w' ∧ w'.steps = w.steps + schedule.count g
  | [], crew, w, _, _, hw, _ => ⟨w, hw, rfl⟩
  | v :: rest, crew, w, h, hwrap, hw, hend => by
      obtain ⟨hstep, hrest⟩ := Bool.or_eq_false_iff.mp hwrap
      have hend' : ¬ (crew.step v).Finishes g rest := fun h => hend h.cons
      by_cases hv : g = v
      · subst hv
        rcases h.step_cases hw hstep with ⟨u, hu, -⟩ | ⟨call', c', -, heq⟩
        · exact absurd ⟨[], List.nil_prefix, w, u, hw, hu⟩ hend
        · have hw' : (crew.step g).workers[g]? = some (w.after call') := by
            rw [heq]
            exact List.getElem?_set_self (List.getElem?_eq_some_iff.mp hw).1
          obtain ⟨w', hget, hsteps⟩ := Sound.steps_eq (h.step hstep) hrest hw' hend'
          refine ⟨w', hget, hsteps.trans ?_⟩
          rw [List.count_cons_self]
          exact Nat.add_right_comm _ _ _
      · obtain ⟨w', hget, hsteps⟩ := Sound.steps_eq (h.step hstep) hrest ((step_of_ne (Ne.symm hv)).trans hw) hend'
        refine ⟨w', hget, hsteps.trans ?_⟩
        rw [List.count_cons_of_ne (Ne.symm hv)]

theorem Sound.scans_le (h : crew.Sound) {w : Worker} (hw : w ∈ crew.workers) :
    w.scans ≤ crew.shared.layout.workers ∧ w.steps < Call.maxSteps crew.shared.layout.workers := by
  obtain ⟨g, hg⟩ := List.getElem?_of_mem hw
  have hworker := h.worker g w hg
  have hlt : g < crew.shared.layout.workers := h.length ▸ (List.getElem?_eq_some_iff.mp hg).1
  exact ⟨hworker.traced.scans_le hlt, hworker.traced.steps_lt hworker.fits hlt⟩

theorem Sound.not_failed (h : crew.Sound) {w : Worker} (hw : w ∈ crew.workers) (f : Fault) :
    w.call ≠ .failed f := by
  obtain ⟨g, hg⟩ := List.getElem?_of_mem hw
  intro hcall
  exact (hcall ▸ (h.worker g w hg).fits : (Call.failed f).Fits g crew.shared)

/-- A call ends if its worker is given as many steps as a call can take. -/
theorem Sound.finishes (h : crew.Sound) (hwrap : crew.runWraps schedule = false)
    (hg : g < crew.workers.length) (hcount : Call.maxSteps crew.workers.length ≤ schedule.count g) :
    crew.Finishes g schedule := by
  by_contra hend
  obtain ⟨w', hw', hsteps⟩ := h.steps_eq hwrap (List.getElem?_eq_getElem hg) hend
  have hrun := (Sound.run _ h hwrap).1
  have hlt := (hrun.scans_le (List.mem_of_getElem? hw')).2
  rw [← hrun.length, length_run] at hlt
  omega

/-! ## Nothing is left -/

/-- When all workers have given up, the slices are exhausted and no unit waits. -/
theorem Sound.drained (h : crew.Sound) (hidle : ∀ w ∈ crew.workers, w.call = .finished none) :
    (∀ v, crew.shared.remaining v = 0) ∧ crew.shared.waiting = [] := by
  have hsettled : ∀ v < crew.shared.layout.workers,
      crew.shared.remaining v = 0 ∧ crew.shared.backlogs[v]? = some #[] := fun v hv => by
    have hw : crew.workers[v]? = some _ := List.getElem?_eq_getElem (h.length ▸ hv)
    have hsettled := (h.worker v _ hw).settled
    rw [hidle _ (List.mem_of_getElem? hw)] at hsettled
    exact hsettled
  refine ⟨?_, Coordinator.waiting_eq_nil_iff.mpr ⟨?_, ?_⟩⟩
  · intro v
    rcases Nat.lt_or_ge v crew.shared.layout.workers with hv | hv
    · exact (hsettled v hv).1
    · exact h.shared.remaining_eq_zero hv
  · by_contra hqueue
    obtain ⟨w, hw, hwatch⟩ := h.watched hqueue
    rw [hidle w hw] at hwatch
    exact hwatch
  · intro v b hb
    have hv : v < crew.shared.layout.workers :=
      h.shared.backlogs_size ▸ (Array.getElem?_eq_some_iff.mp hb).1
    exact Option.some.inj (hb.symm.trans (hsettled v hv).2)

theorem bag_received : bag crew.received = (crew.workers.map fun w => bag w.received).sum := bag_flatMap _ _

theorem Sound.bag_received_le (h : crew.Sound) : bag crew.received ≤ span 0 crew.shared.vertexCount := by
  have hsplit : (crew.workers.map Worker.holds).sum
      = bag crew.received + (crew.workers.map (·.call.pending)).sum := by
    rw [bag_received, ← List.sum_map_add]
    rfl
  rw [← h.cover, hsplit, add_assoc]
  exact Multiset.le_add_right _ _

theorem Sound.bag_received (h : crew.Sound) (hidle : ∀ w ∈ crew.workers, w.call = .finished none) :
    bag crew.received = span 0 crew.shared.vertexCount := by
  obtain ⟨hremaining, hwaiting⟩ := h.drained hidle
  have hstock : crew.shared.stock = 0 := by
    rw [Coordinator.stock, hwaiting, Multiset.card_eq_zero.mp (Coordinator.card_unclaimed_eq_zero_iff.mpr hremaining)]
    rfl
  have hholds : crew.workers.map Worker.holds = crew.workers.map fun w => bag w.received := by
    refine List.map_congr_left ?_
    intro w hw
    rw [Worker.holds, hidle w hw]
    exact add_zero _
  rw [← h.cover, hstock, add_zero, hholds, Crew.bag_received]

/-- However the steps of the workers are interleaved: no vertex is handed out twice; no call fails, scans the
workers more often than there are workers, or goes on without end; and when all workers have got nothing from
their last calls, each vertex has been handed out once, all are counted, and the coordinator is drained. -/
theorem run_exactCover (hn : n < 2 ^ 32)
    (hc : Coordinator.start n layout chunkSize queueCapacity stealBatch = .ok c)
    (hwrap : (start c).runWraps schedule = false) :
    let crew := (start c).run schedule
    (crew.received.flatMap WorkUnit.vertices).Nodup ∧
      (∀ w ∈ crew.workers, (∀ f, w.call ≠ .failed f) ∧ w.scans ≤ layout.workers ∧
        w.steps < Call.maxSteps layout.workers) ∧
      (∀ g < layout.workers, ∀ more, crew.runWraps more = false →
        Call.maxSteps layout.workers ≤ more.count g → crew.Finishes g more) ∧
      ((∀ w ∈ crew.workers, w.call = .finished none) →
        (crew.received.flatMap WorkUnit.vertices).Perm (List.range n) ∧ crew.shared.claimed = n ∧
          crew.shared.produced = n ∧ crew.shared.isDrained = true) := by
  intro crew
  obtain ⟨h, hlater⟩ : crew.Sound ∧ c.Later crew.shared := Sound.run schedule (sound_start hn hc) hwrap
  obtain ⟨hcount, hlayout, -, -⟩ := Coordinator.fields_of_start hc
  have hvertices : crew.shared.vertexCount = n := hlater.vertexCount.trans hcount
  have hworkers : crew.shared.layout = layout := hlater.layout.trans hlayout
  refine ⟨?_, fun w hw => ⟨h.not_failed hw, hworkers ▸ h.scans_le hw⟩, fun g hg more hmore hsteps => ?_,
    fun hidle => ?_⟩
  · exact Multiset.coe_nodup.mp (Multiset.nodup_of_le h.bag_received_le (nodup_span _ _))
  · have hlength : crew.workers.length = layout.workers := h.length.trans (congrArg Layout.workers hworkers)
    exact h.finishes hmore (hlength ▸ hg) (hlength ▸ hsteps)
  · have hbag := h.bag_received hidle
    rw [hvertices] at hbag
    refine ⟨Multiset.coe_eq_coe.mp (hbag.trans (span_zero n)), ?_, ?_, ?_⟩
    · rw [h.claimed, ← volume_flatMap, ← card_bag]
      show (bag crew.received).card % _ = n
      rw [hbag, card_span, Nat.sub_zero, Nat.mod_eq_of_lt (Nat.lt_trans hn (by decide))]
    · have hall := h.produced
      have hnone : crew.workers.map (·.call.uncounted) = crew.workers.map fun _ => 0 :=
        List.map_congr_left fun w hw => by rw [hidle w hw]; rfl
      rw [hnone, List.map_const', List.sum_replicate_nat, Nat.mul_zero, Nat.add_zero,
        Coordinator.card_unclaimed_eq_zero_iff.mpr (h.drained hidle).1, Nat.add_zero, hvertices] at hall
      exact hall
    · exact Coordinator.isDrained_iff.mpr (h.drained hidle)

/-- Two workers, chunks of one vertex and a queue for one unit: the first worker goes through its own slice and
steals, so that one of the stolen units waits in its backlog; then the second joins in, until both give up. -/
theorem run_exactCover_two :
    ∃ c schedule, Coordinator.start 7 ⟨1, 2⟩ 1 1 3 = .ok c ∧ (start c).runWraps schedule = false ∧
      (∀ w ∈ ((start c).run schedule).workers, w.call = .finished none) ∧
      (((start c).run schedule).received.flatMap WorkUnit.vertices).Perm (List.range 7) ∧
      ((start c).run schedule).shared.isDrained = true := by
  let c : Coordinator :=
    { vertexCount := 7, layout := ⟨1, 2⟩, chunkSize := 1, stealBatch := 3
      cursors := #[⟨0, 3⟩, ⟨3, 7⟩], backlogs := #[#[], #[]], queue := ⟨1, []⟩
      produced := 0, claimed := 0, results := #[none], reported := 0 }
  let schedule : List Nat :=
    List.replicate 24 0 ++ (List.replicate 23 [1, 0]).flatten ++ List.replicate 4 0
  have hc : Coordinator.start 7 ⟨1, 2⟩ 1 1 3 = .ok c := by decide +kernel
  have hwrap : (start c).runWraps schedule = false := by decide +kernel
  have hidle : ∀ w ∈ ((start c).run schedule).workers, w.call = .finished none := by decide +kernel
  obtain ⟨hcover, -, -, hdrained⟩ := (run_exactCover (by decide) hc hwrap).2.2.2 hidle
  exact ⟨c, schedule, hc, hwrap, hidle, hcover, hdrained⟩

end PatternCount.Crew
