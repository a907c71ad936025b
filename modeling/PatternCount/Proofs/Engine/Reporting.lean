import PatternCount.Proofs.Engine.Accounts

/-!
# Ranks report

A rank whose workers are done takes three turns to its end: it adds up what they have counted, fills its slot, and
is counted as reported (`Cooperation.Sound.conclude_cases`). None of this fails: there is room in the tally, and no
rank reports twice. So turns of ranks keep the accounts in order, and with them whole runs do
(`Cooperation.Sound.steps`).
-/

namespace PatternCount

open WorkUnit Engine

/-! ## Turns of ranks -/

namespace RankRun

variable {r : RankRun} {rank total : Nat} {tally : Tally} {c : Coordinator}

theorem all_isDone_iff : r.members.all Member.isDone = true ↔ ∀ m ∈ r.members, m.worker.call = .finished none := by
  rw [List.all_eq_true]
  exact forall₂_congr fun m _ => decide_eq_true_iff

theorem conclude_add (hreport : r.report = none) (hdone : ∀ m ∈ r.members, m.worker.call = .finished none)
    (hadd : addShares r.seconds 0 r.shares 0 r.tally = (.ok total, tally)) :
    r.conclude rank c = ({ r with tally, report := some (.fill rank total) }, c) := by
  simp only [conclude, hreport, if_pos (all_isDone_iff.mpr hdone), hadd]

theorem conclude_fill (hreport : r.report = some (.fill rank total)) (hslot : c.results[rank]? = some none) :
    r.conclude rank c = ({ r with report := some .count },
      c.withReports (c.results.setIfInBounds rank (some total)) c.reported) := by
  simp only [conclude, hreport, Report.step_fill hslot]

theorem conclude_count (hreport : r.report = some .count) (hlt : c.reported + 1 < Word.size) :
    r.conclude rank c = ({ r with report := some .finished }, c.withReports c.results (c.reported + 1)) := by
  simp only [conclude, hreport, Report.step_count hlt]

end RankRun

namespace Cooperation

variable {g : HostGraph} {p : Plan} {t : Tally} {tallies : List Tally} {run : Cooperation} {rank worker : Nat}
  {r r' : RankRun}

/-- What is known of the counts of a rank whose workers are done. -/
theorem Sound.addShares_eq_ok (h : run.Sound g p tallies) (hr : run.ranks[rank]? = some r)
    (ht : tallies[rank]? = some t) (hdone : ∀ m ∈ r.members, m.worker.call = .finished none) :
    ∃ tally, addShares r.seconds 0 r.shares 0 t = (.ok r.total, tally) ∧ t.Grown tally r.total r.handled ∧
      tally.iepRedundancy = t.iepRedundancy := by
  obtain ⟨t', ht', hrank⟩ := h.rank rank r hr
  obtain rfl := Option.some.inj (ht.symm.trans ht')
  obtain ⟨hresult, hhandled⟩ := hrank.total_eq hdone
  have hfits := h.fits (List.mem_of_getElem? ht) (h.bag_received_le (List.mem_of_getElem? hr))
  rw [← hresult, ← hhandled] at hfits
  have hroom := h.room t (List.mem_of_getElem? ht)
  have hshares : r.shares.length = run.shared.layout.threadsPerRank := by
    rw [RankRun.shares, List.length_map, hrank.length]
  obtain ⟨tally, hadd, hgrown⟩ : ∃ tally, addShares r.seconds 0 r.shares 0 t = (.ok (0 + r.total), tally) ∧
      t.Grown tally r.total r.handled ∧ tally.iepRedundancy = t.iepRedundancy :=
    Engine.addShares_eq_ok (by rw [hshares, hroom.results_size, Nat.zero_add])
      (by rw [hshares, hroom.handled_size, Nat.zero_add]) (by rw [hshares, hroom.elapsed_size, Nat.zero_add])
      hfits.1 hfits.2 (Nat.lt_of_le_of_lt (Nat.add_le_add_right (Nat.zero_le _) _) hfits.1)
  rw [Nat.zero_add] at hadd
  exact ⟨tally, hadd, hgrown⟩

/-- Replacing the tally and the report of a rank, and what has been reported, keeps the accounts in order. -/
theorem Sound.setRank (h : run.Sound g p tallies) (hr : run.ranks[rank]? = some r) (ht : tallies[rank]? = some t)
    (results : Array (Option Nat)) (reported : Nat) (hsearch : r'.search = r.search)
    (hmembers : r'.members = r.members) (haccounts : r'.Accounts t rank (run.shared.withReports results reported))
    (hsize : results.size = run.shared.results.size)
    (hothers : ∀ i ≠ rank, results[i]? = run.shared.results[i]?)
    (hreported : reported + r.isReported = run.shared.reported + r'.isReported) :
    (Cooperation.mk (run.shared.withReports results reported) (run.ranks.set rank r')).Sound g p tallies := by
  obtain ⟨t', ht', hrank⟩ := h.rank rank r hr
  have hcrew := crew_setRank (c := run.shared.withReports results reported) hr hmembers
  exact {
    closed := h.closed
    room := h.room
    crew := hcrew ▸ h.crew.withReports
    filled := hcrew ▸ h.filled.withReports
    vertexCount := h.vertexCount
    length := by rw [List.length_set]; exact h.length
    small := h.small
    rank := fun i r₀ hi => by
      by_cases hne : i = rank
      · subst hne
        rw [getElem?_set_of_some hr] at hi
        obtain rfl := Option.some.inj hi
        refine ⟨t, ht, hsearch ▸ hrank.graph, hsearch ▸ hrank.plan, hmembers ▸ hrank.length, ?_, haccounts⟩
        rw [hmembers, hsearch]
        exact hrank.member
      · rw [List.getElem?_set_ne (Ne.symm hne)] at hi
        obtain ⟨t₀, ht₀, hrank₀⟩ := h.rank i r₀ hi
        exact ⟨t₀, ht₀, hrank₀.congr rfl (hothers i hne)⟩
    results_size := hsize.trans h.results_size
    reported := by
      have hsum := sum_map_set RankRun.isReported (b := r') hr
      have hbefore := h.reported
      show reported = ((run.ranks.set rank r').map RankRun.isReported).sum
      omega }

/-- A rank that is not counted as reported can still be counted. -/
theorem Sound.reported_lt (h : run.Sound g p tallies) (hr : run.ranks[rank]? = some r)
    (hreport : r.report ≠ some .finished) : run.shared.reported + 1 < Word.size := by
  let r' : RankRun := { r with report := some .finished }
  have hsum := sum_map_set RankRun.isReported (b := r') hr
  have hzero : r.isReported = 0 := if_neg hreport
  have hone : r'.isReported = 1 := if_pos rfl
  have hle := List.sum_le_card_nsmul ((run.ranks.set rank r').map RankRun.isReported) 1
    (List.forall_mem_map.mpr fun r _ => by unfold RankRun.isReported; split <;> omega)
  rw [List.length_map, List.length_set, h.length, Nat.nsmul_eq_mul, Nat.mul_one] at hle
  have hsmall := h.small
  have hreported := h.reported
  omega

/-- At its turn a rank waits for its workers, adds up what they have counted, or goes on with its report. -/
theorem Sound.conclude_cases (h : run.Sound g p tallies) (hr : run.ranks[rank]? = some r)
    (ht : tallies[rank]? = some t) :
    (r.report = none ∧ (¬ ∀ m ∈ r.members, m.worker.call = .finished none) ∧
        r.conclude rank run.shared = (r, run.shared)) ∨
      (∃ tally, r.report = none ∧ (∀ m ∈ r.members, m.worker.call = .finished none) ∧
        addShares r.seconds 0 r.shares 0 t = (.ok r.total, tally) ∧
        r.conclude rank run.shared = ({ r with tally, report := some (.fill rank r.total) }, run.shared)) ∨
      (r.report = some (.fill rank r.total) ∧ r.conclude rank run.shared = ({ r with report := some .count },
        run.shared.withReports (run.shared.results.setIfInBounds rank (some r.total)) run.shared.reported)) ∨
      (r.report = some .count ∧ r.conclude rank run.shared = ({ r with report := some .finished },
        run.shared.withReports run.shared.results (run.shared.reported + 1))) ∨
      r.report = some .finished ∧ r.conclude rank run.shared = (r, run.shared) := by
  obtain ⟨t', ht', hrank⟩ := h.rank rank r hr
  obtain rfl := Option.some.inj (ht.symm.trans ht')
  have haccounts := hrank.accounts
  unfold RankRun.Accounts at haccounts
  split at haccounts
  · next hreport =>
      by_cases hdone : ∀ m ∈ r.members, m.worker.call = .finished none
      · obtain ⟨tally, hadd, -⟩ := h.addShares_eq_ok hr ht hdone
        exact .inr (.inl ⟨tally, hreport, hdone, hadd, RankRun.conclude_add hreport hdone (haccounts.1 ▸ hadd)⟩)
      · refine .inl ⟨hreport, hdone, ?_⟩
        simp only [RankRun.conclude, hreport, if_neg (mt RankRun.all_isDone_iff.mp hdone)]
  · next rank' total hreport =>
      obtain ⟨-, rfl, rfl, hslot⟩ := haccounts
      exact .inr (.inr (.inl ⟨hreport, RankRun.conclude_fill hreport hslot⟩))
  · exact haccounts.elim
  · next report hfill hfailed hreport =>
      cases report with
      | fill rank' total => exact (hfill rank' total rfl).elim
      | failed f => exact (hfailed f rfl).elim
      | count =>
          have hlt := h.reported_lt hr (by rw [hreport]; nofun)
          exact .inr (.inr (.inr (.inl ⟨hreport, RankRun.conclude_count hreport hlt⟩)))
      | finished =>
          refine .inr (.inr (.inr (.inr ⟨hreport, ?_⟩)))
          obtain ⟨search, members, seconds, tally, report⟩ := r
          obtain rfl : report = some .finished := hreport
          rfl

theorem Sound.step_conclude (h : run.Sound g p tallies) : (run.step (.conclude rank)).Sound g p tallies ∧
    run.shared.Later (run.step (.conclude rank)).shared := by
  cases hr : run.ranks[rank]? with
  | none =>
      rw [step, hr]
      exact ⟨h, .refl _⟩
  | some r =>
      obtain ⟨t, ht, hrank⟩ := h.rank rank r hr
      have haccounts := hrank.accounts
      unfold RankRun.Accounts at haccounts
      rcases h.conclude_cases hr ht with ⟨-, -, hstep⟩ | ⟨tally, hreport, hdone, hadd, hstep⟩ | ⟨hreport, hstep⟩ |
          ⟨hreport, hstep⟩ | ⟨-, hstep⟩
      · rw [Cooperation.step_conclude hr hstep, set_getElem?_self hr]
        exact ⟨h, .refl _⟩
      · rw [Cooperation.step_conclude hr hstep]
        rw [hreport] at haccounts
        exact ⟨h.setRank hr ht run.shared.results run.shared.reported rfl rfl
          ⟨⟨hdone, hadd⟩, rfl, rfl, haccounts.2⟩ rfl (fun _ _ => rfl) (by simp [RankRun.isReported, hreport]), .refl _⟩
      · rw [Cooperation.step_conclude hr hstep]
        rw [hreport] at haccounts
        have hrank' : rank < run.shared.results.size := (Array.getElem?_eq_some_iff.mp haccounts.2.2.2).1
        refine ⟨h.setRank hr ht _ _ rfl rfl ⟨haccounts.1, ?_⟩ Array.size_setIfInBounds (fun i hi => ?_)
          (by simp [RankRun.isReported, hreport]), Coordinator.later_withReports⟩
        · exact Array.getElem?_setIfInBounds_self_of_lt hrank'
        · exact Array.getElem?_setIfInBounds_ne (Ne.symm hi)
      · rw [Cooperation.step_conclude hr hstep]
        rw [hreport] at haccounts
        exact ⟨h.setRank hr ht _ _ rfl rfl haccounts rfl (fun _ _ => rfl) (by simp [RankRun.isReported, hreport]),
          Coordinator.later_withReports⟩
      · rw [Cooperation.step_conclude hr hstep, set_getElem?_self hr]
        exact ⟨h, .refl _⟩

/-! ## Runs -/

/-- A turn keeps the accounts in order, if no cursor wraps around in it. -/
theorem Sound.step (h : run.Sound g p tallies) {turn : Turn} (hwrap : run.wraps turn = false) :
    (run.step turn).Sound g p tallies ∧ run.shared.Later (run.step turn).shared := by
  cases turn with
  | work rank worker => exact h.step_work hwrap
  | conclude rank => exact h.step_conclude

theorem Sound.steps (schedule : List Turn) {run : Cooperation} (h : run.Sound g p tallies)
    (hwrap : run.stepsWrap schedule = false) :
    (run.steps schedule).Sound g p tallies ∧ run.shared.Later (run.steps schedule).shared := by
  induction schedule generalizing run with
  | nil => exact ⟨h, .refl _⟩
  | cons turn rest ih =>
      obtain ⟨hstep, hrest⟩ := Bool.or_eq_false_iff.mp hwrap
      obtain ⟨hsound, hlater⟩ := h.step hstep
      obtain ⟨hsounds, hlaters⟩ := ih hsound hrest
      exact ⟨hsounds, hlater.trans hlaters⟩

end Cooperation

end PatternCount
