import PatternCount.Proofs.Engine.Reporting

/-!
# Every run comes to its end

At each of its turns a worker is done or gets further (`Cooperation.Sound.effort_step`), and how far it can get is
bounded (`Cooperation.Sound.effort_lt`), since there are only so many vertices to be handed out. So a worker is done
after as many turns (`Cooperation.Sound.isDone_of_count`), whatever the others do in between. A rank whose workers
are done comes to the end of its report in three turns (`Cooperation.Sound.phase_steps`).

A schedule is `Fair` if it gives the workers as many turns, and after that three to each rank; then all ranks have
reported at its end (`Cooperation.Sound.finishes`).
-/

namespace PatternCount

open WorkUnit Engine

/-- How far the report of a rank has got. -/
def RankRun.phase (r : RankRun) : Nat :=
  match r.report with
  | some (.fill _ _) => 1
  | some .count => 2
  | some .finished => 3
  | _ => 0

theorem RankRun.report_of_phase {r : RankRun} (h : 3 ≤ r.phase) : r.report = some .finished := by
  unfold phase at h
  split at h
  · omega
  · omega
  · assumption
  · omega

theorem RankRun.members_conclude (r : RankRun) (rank : Nat) (c : Coordinator) :
    (r.conclude rank c).1.members = r.members := by
  unfold conclude
  split
  · rfl
  · split
    · split <;> rfl
    · rfl

namespace Cooperation

/-- As many turns as a worker can need in a run over `n` vertices. -/
def turnsNeeded (n workers : Nat) : Nat := (n + 1) * Call.maxSteps workers

/-- A schedule in which all workers have turns enough, and then all ranks. -/
def Fair (layout : Layout) (n : Nat) (schedule : List Turn) : Prop :=
  ∃ first last, schedule = first ++ last ∧
    (∀ rank < layout.ranks, ∀ worker < layout.threadsPerRank,
      turnsNeeded n layout.workers ≤ first.count (.work rank worker)) ∧
    ∀ rank < layout.ranks, 3 ≤ last.count (.conclude rank)

variable {g : HostGraph} {p : Plan} {tallies : List Tally} {run : Cooperation} {rank worker : Nat} {r : RankRun}
  {m m' : Member} {turn : Turn} {c : Coordinator}

theorem steps_append (first last : List Turn) (run : Cooperation) :
    run.steps (first ++ last) = (run.steps first).steps last := List.foldl_append

theorem stepsWrap_append : ∀ (first last : List Turn) (run : Cooperation),
    run.stepsWrap (first ++ last) = (run.stepsWrap first || (run.steps first).stepsWrap last)
  | [], _, _ => rfl
  | turn :: first, last, run => by
      rw [List.cons_append, stepsWrap, stepsWrap, stepsWrap_append first last, Bool.or_assoc]
      rfl

/-! ## Workers get further -/

theorem member?_setMember (hr : run.ranks[rank]? = some r) (hm : r.members[worker]? = some m) (i j : Nat) :
    (Cooperation.mk c (run.ranks.set rank (r.setMember worker m'))).member? i j
      = if i = rank ∧ j = worker then some m' else run.member? i j := by
  by_cases hi : i = rank
  · subst hi
    rw [member?, member?, getElem?_set_of_some hr, hr, Option.bind_some,
      Option.bind_some, RankRun.setMember]
    by_cases hj : j = worker
    · subst hj
      rw [if_pos ⟨rfl, rfl⟩, getElem?_set_of_some hm]
    · rw [if_neg fun h => hj h.2, List.getElem?_set_ne (Ne.symm hj)]
  · rw [if_neg fun h => hi h.1, member?, member?, List.getElem?_set_ne (Ne.symm hi)]

theorem member?_step_work (hr : run.ranks[rank]? = some r) (hm : r.members[worker]? = some m)
    (hstep : m.step r.search (run.worker rank worker) run.shared = (m', c)) :
    (run.step (.work rank worker)).member? rank worker = some m' := by
  rw [step_work hr hm hstep, member?_setMember hr hm, if_pos ⟨rfl, rfl⟩]

theorem member?_conclude (i j : Nat) : (run.step (.conclude rank)).member? i j = run.member? i j := by
  cases hr : run.ranks[rank]? with
  | none => simp only [step, hr]
  | some r =>
      obtain ⟨r', c', hstep⟩ : ∃ r' c', r.conclude rank run.shared = (r', c') := ⟨_, _, rfl⟩
      have hmembers := r.members_conclude rank run.shared
      rw [hstep] at hmembers
      rw [step_conclude hr hstep]
      by_cases hi : i = rank
      · subst hi
        rw [member?, member?, getElem?_set_of_some hr, hr, Option.bind_some,
          Option.bind_some, hmembers]
      · rw [member?, member?, List.getElem?_set_ne (Ne.symm hi)]

theorem Sound.steps_lt (h : run.Sound g p tallies) (hm : run.member? rank worker = some m) :
    m.worker.steps < Call.maxSteps run.shared.layout.workers := by
  obtain ⟨r, hr, hm⟩ := member?_eq_some.mp hm
  exact (h.crew.scans_le (List.mem_of_getElem? (getElem?_crew h.length_members hr hm))).2

/-- A worker cannot get further than the vertices let it. -/
theorem Sound.effort_lt (h : run.Sound g p tallies) (hm : run.member? rank worker = some m) :
    m.worker.effort (Call.maxSteps run.shared.layout.workers)
      < turnsNeeded g.vertexCount run.shared.layout.workers := by
  have hsteps := h.steps_lt hm
  obtain ⟨r, hr, hm⟩ := member?_eq_some.mp hm
  have hlength : m.worker.received.length ≤ run.shared.vertexCount :=
    h.crew.length_received_le h.filled (List.mem_of_getElem? (getElem?_crew h.length_members hr hm))
  rw [h.vertexCount] at hlength
  have hmul := Nat.mul_le_mul_right (Call.maxSteps run.shared.layout.workers)
    (Nat.le_trans (Nat.sub_le _ m.worker.call.returned.length) hlength)
  rw [Worker.effort, turnsNeeded, Nat.succ_mul]
  omega

/-- The turns of others leave a worker where it is. -/
theorem member?_step_of_ne (hne : turn ≠ .work rank worker) :
    (run.step turn).member? rank worker = run.member? rank worker := by
  cases turn with
  | conclude rank' => exact member?_conclude rank worker
  | work rank' worker' =>
      rcases run.member?_cases rank' worker' with ⟨-, hstep⟩ | ⟨r, m, hr, hm⟩
      · rw [hstep]
      · obtain ⟨m', c', heq⟩ : ∃ m' c', m.step r.search (run.worker rank' worker') run.shared = (m', c') :=
          ⟨_, _, rfl⟩
        rw [step_work hr hm heq, member?_setMember hr hm, if_neg]
        rintro ⟨rfl, rfl⟩
        exact hne rfl

/-- At a turn of its own a worker is done or gets further. -/
theorem Sound.effort_step (h : run.Sound g p tallies) (hwrap : run.wraps (.work rank worker) = false)
    (hm : run.member? rank worker = some m) :
    ∃ m', (run.step (.work rank worker)).member? rank worker = some m' ∧
      (m.worker.call = .finished none ∧ m' = m ∨ m.worker.call ≠ .finished none ∧
        m.worker.effort (Call.maxSteps run.shared.layout.workers)
          < m'.worker.effort (Call.maxSteps run.shared.layout.workers)) := by
  have hsteps := h.steps_lt hm
  obtain ⟨r, hr, hm⟩ := member?_eq_some.mp hm
  obtain ⟨t, -, hrank⟩ := h.rank rank r hr
  have hsuffix := (hrank.member m (List.mem_of_getElem? hm)).returned
  rcases h.member_cases hr hm hwrap with ⟨hdone, heq⟩ | ⟨u, share, buffers, hu, -, -, heq⟩ |
      ⟨call', c', hover, -, hmove, heq⟩
  · exact ⟨m, member?_step_work hr hm heq, .inl ⟨hdone, rfl⟩⟩
  · rw [hu] at hsuffix
    exact ⟨_, member?_step_work hr hm heq,
      .inr ⟨by rw [hu]; nofun, Worker.lt_effort_again hu hsuffix.length_le hsteps⟩⟩
  · refine ⟨_, member?_step_work hr hm heq, .inr ⟨fun hdone => ?_, ?_⟩⟩
    · rw [hdone] at hover
      cases hover
    · rw [Worker.effort_after hmove]
      exact Nat.lt_succ_self _

/-- A worker is done, or has got further by as many turns as it had. -/
theorem Sound.effort_steps (schedule : List Turn) {run : Cooperation} {m : Member} (h : run.Sound g p tallies)
    (hwrap : run.stepsWrap schedule = false) (hm : run.member? rank worker = some m) :
    ∃ m', (run.steps schedule).member? rank worker = some m' ∧
      (m.worker.call = .finished none → m' = m) ∧ (m'.worker.call = .finished none ∨
        m.worker.effort (Call.maxSteps run.shared.layout.workers) + schedule.count (.work rank worker)
          ≤ m'.worker.effort (Call.maxSteps run.shared.layout.workers)) := by
  induction schedule generalizing run m with
  | nil => exact ⟨m, hm, fun _ => rfl, .inr (Nat.le_refl _)⟩
  | cons turn rest ih =>
      obtain ⟨hstep, hrest⟩ := Bool.or_eq_false_iff.mp hwrap
      obtain ⟨hsound, hlater⟩ := h.step hstep
      by_cases hturn : turn = .work rank worker
      · subst hturn
        obtain ⟨m', hm', heffort⟩ := h.effort_step hstep hm
        obtain ⟨m'', hm'', hsame, hend⟩ := ih hsound hrest hm'
        rw [hlater.layout] at hend
        rcases heffort with ⟨hdone, rfl⟩ | ⟨hbusy, hlt⟩
        · exact ⟨m'', hm'', hsame, .inl (hsame hdone ▸ hdone)⟩
        · refine ⟨m'', hm'', fun hdone => absurd hdone hbusy, hend.imp_right fun hle => ?_⟩
          rw [List.count_cons_self]
          omega
      · obtain ⟨m'', hm'', hsame, hend⟩ := ih hsound hrest ((member?_step_of_ne hturn).trans hm)
        rw [hlater.layout] at hend
        rw [List.count_cons_of_ne hturn]
        exact ⟨m'', hm'', hsame, hend⟩

/-- A worker is done once it has had turns enough. -/
theorem Sound.isDone_of_count {schedule : List Turn} (h : run.Sound g p tallies)
    (hwrap : run.stepsWrap schedule = false) (hm : run.member? rank worker = some m)
    (hcount : turnsNeeded g.vertexCount run.shared.layout.workers ≤ schedule.count (.work rank worker)) :
    ∃ m', (run.steps schedule).member? rank worker = some m' ∧ m'.worker.call = .finished none := by
  obtain ⟨m', hm', -, hdone | heffort⟩ := h.effort_steps schedule hwrap hm
  · exact ⟨m', hm', hdone⟩
  · obtain ⟨hsound, hlater⟩ := h.steps schedule hwrap
    have hlt := hsound.effort_lt hm'
    rw [hlater.layout] at hlt
    omega

/-! ## Ranks get further -/

/-- The turns of a rank and of its workers leave the other ranks as they are. -/
theorem ranks_step_of_ne (hne : turn.rank ≠ rank) : (run.step turn).ranks[rank]? = run.ranks[rank]? := by
  cases turn with
  | work rank' worker' =>
      rcases run.member?_cases rank' worker' with ⟨-, hstep⟩ | ⟨r, m, hr, hm⟩
      · rw [hstep]
      · rw [step_work hr hm rfl]
        exact List.getElem?_set_ne hne
  | conclude rank' =>
      cases hr : run.ranks[rank']? with
      | none => simp only [step, hr]
      | some r =>
          obtain ⟨r', c', hstep⟩ : ∃ r' c', r.conclude rank' run.shared = (r', c') := ⟨_, _, rfl⟩
          rw [step_conclude hr hstep]
          exact List.getElem?_set_ne hne

theorem Sound.phase_conclude (h : run.Sound g p tallies) (hr : run.ranks[rank]? = some r)
    (hdone : ∀ m ∈ r.members, m.worker.call = .finished none) :
    ∃ r', (run.step (.conclude rank)).ranks[rank]? = some r' ∧ (∀ m ∈ r'.members, m.worker.call = .finished none) ∧
      (3 ≤ r'.phase ∨ r.phase < r'.phase) := by
  have hset : ∀ r', (run.ranks.set rank r')[rank]? = some r' := fun r' =>
    getElem?_set_of_some hr
  obtain ⟨t, ht, -⟩ := h.rank rank r hr
  rcases h.conclude_cases hr ht with ⟨-, hbusy, -⟩ | ⟨tally, hreport, -, -, hstep⟩ | ⟨hreport, hstep⟩ |
      ⟨hreport, hstep⟩ | ⟨hreport, hstep⟩
  · exact absurd hdone hbusy
  all_goals
    rw [Cooperation.step_conclude hr hstep]
    exact ⟨_, hset _, hdone, by simp [RankRun.phase, hreport]⟩

/-- Turns of workers that are done change nothing. -/
theorem step_work_of_done (hr : run.ranks[rank]? = some r)
    (hdone : ∀ m ∈ r.members, m.worker.call = .finished none) : run.step (.work rank worker) = run := by
  rcases run.member?_cases rank worker with ⟨-, hstep⟩ | ⟨r₀, m, hr₀, hm⟩
  · exact hstep
  · obtain rfl := Option.some.inj (hr.symm.trans hr₀)
    rw [step_work hr hm (Member.step_of_done (hdone m (List.mem_of_getElem? hm))), RankRun.setMember,
      set_getElem?_self hm, set_getElem?_self hr]

/-- Once its workers are done, a rank gets to the end of its report in three turns. -/
theorem Sound.phase_steps (schedule : List Turn) {run : Cooperation} {r : RankRun} (h : run.Sound g p tallies)
    (hwrap : run.stepsWrap schedule = false) (hr : run.ranks[rank]? = some r)
    (hdone : ∀ m ∈ r.members, m.worker.call = .finished none) :
    ∃ r', (run.steps schedule).ranks[rank]? = some r' ∧
      min 3 (r.phase + schedule.count (.conclude rank)) ≤ r'.phase := by
  induction schedule generalizing run r with
  | nil => exact ⟨r, hr, Nat.min_le_right _ _⟩
  | cons turn rest ih =>
      obtain ⟨hstep, hrest⟩ := Bool.or_eq_false_iff.mp hwrap
      have hsound := (h.step hstep).1
      by_cases hturn : turn = .conclude rank
      · subst hturn
        obtain ⟨r', hr', hdone', hphase⟩ := h.phase_conclude hr hdone
        obtain ⟨r'', hr'', hle⟩ := ih hsound hrest hr' hdone'
        refine ⟨r'', hr'', Nat.le_trans ?_ hle⟩
        rw [List.count_cons_self]
        omega
      · have hsame : (run.step turn).ranks[rank]? = some r := by
          by_cases hrank : turn.rank = rank
          · cases turn with
            | work rank' worker =>
                obtain rfl : rank' = rank := hrank
                rw [step_work_of_done hr hdone, hr]
            | conclude rank' => exact absurd (congrArg Turn.conclude hrank) hturn
          · rw [ranks_step_of_ne hrank, hr]
        rw [List.count_cons_of_ne hturn]
        exact ih hsound hrest hsame hdone

theorem Sound.exists_rank (h : run.Sound g p tallies) (hrank : rank < run.shared.layout.ranks) :
    ∃ r, run.ranks[rank]? = some r := ⟨_, List.getElem?_eq_getElem (h.length ▸ hrank)⟩

theorem Sound.exists_member (h : run.Sound g p tallies) (hrank : rank < run.shared.layout.ranks)
    (hworker : worker < run.shared.layout.threadsPerRank) : ∃ m, run.member? rank worker = some m := by
  obtain ⟨r, hr⟩ := h.exists_rank hrank
  rw [← h.length_members r (List.mem_of_getElem? hr)] at hworker
  exact ⟨_, member?_eq_some.mpr ⟨r, hr, List.getElem?_eq_getElem hworker⟩⟩

/-- In a fair schedule all ranks report. -/
theorem Sound.finishes {schedule : List Turn} (h : run.Sound g p tallies) (hwrap : run.stepsWrap schedule = false)
    (hfair : Fair run.shared.layout g.vertexCount schedule) :
    ∀ r ∈ (run.steps schedule).ranks, r.report = some .finished := by
  obtain ⟨first, last, rfl, hfirst, hlast⟩ := hfair
  rw [stepsWrap_append, Bool.or_eq_false_iff] at hwrap
  obtain ⟨hmid, hlater⟩ := h.steps first hwrap.1
  obtain ⟨hend, hlater'⟩ := hmid.steps last hwrap.2
  rw [steps_append]
  intro r hr
  obtain ⟨rank, hrank⟩ := List.getElem?_of_mem hr
  have hlt : rank < run.shared.layout.ranks := by
    rw [← hlater.layout, ← hlater'.layout, ← hend.length]
    exact (List.getElem?_eq_some_iff.mp hrank).1
  obtain ⟨r₁, hr₁⟩ := hmid.exists_rank (hlater.layout ▸ hlt)
  have hdone : ∀ m ∈ r₁.members, m.worker.call = .finished none := by
    intro m hm
    obtain ⟨worker, hworker⟩ := List.getElem?_of_mem hm
    have hthreads : worker < run.shared.layout.threadsPerRank := by
      rw [← hlater.layout, ← hmid.length_members r₁ (List.mem_of_getElem? hr₁)]
      exact (List.getElem?_eq_some_iff.mp hworker).1
    obtain ⟨m₀, hm₀⟩ := h.exists_member hlt hthreads
    obtain ⟨m', hm', hdone⟩ := h.isDone_of_count hwrap.1 hm₀ (hfirst rank hlt worker hthreads)
    rwa [Option.some.inj ((member?_eq_some.mpr ⟨r₁, hr₁, hworker⟩).symm.trans hm')]
  obtain ⟨r', hr', hphase⟩ := hmid.phase_steps last hwrap.2 hr₁ hdone
  obtain rfl := Option.some.inj (hrank.symm.trans hr')
  have := hlast rank hlt
  exact RankRun.report_of_phase (by omega)

end Cooperation

end PatternCount
