import PatternCount.Proofs.Engine.Completion

/-!
# Ranks that run one after the other

`Engine.runRank` carries out a rank by itself, and its workers one after the other. That is one of the schedules of a
cooperation, in which each worker has all its turns at once, and then the rank has its own (`rankTurns`).

To see that both come to the same, take what is left of `Engine.work` when a worker is at some point of a call:
`resume` makes the rest of the call and goes on from there. A turn of the worker leaves it as it is
(`Cooperation.Sound.resumes_step`). So what `Engine.work` makes of a worker at its start is what the worker has come
to when it is done (`Cooperation.Sound.work_eq`), and the same follows for all workers of a rank
(`Cooperation.Sound.workAll_eq`) and the rank (`Cooperation.Sound.runRank_eq`).
-/

namespace PatternCount

open WorkUnit

namespace Engine

/-! ## What is left of the work of a worker -/

/-- What a worker comes to that is at some point of a call, which it has `fuel` steps for, and that may make `limit`
more calls. -/
def resume (s : Search) (rank worker g limit fuel : Nat) (call : Call) (share : Share) (buffers : List Buffers)
    (c : Coordinator) : Except Fault Share × Coordinator :=
  match Call.run g fuel call c with
  | (.finished (some u), c) =>
      match countInto s share buffers u with
      | .ok (share, buffers) => work s rank worker limit share buffers c
      | .error f => (.error f, c)
  | (.finished none, c) => (.ok share, c)
  | (.failed f, c) => (.error f, c)
  | (_, c) => (.error .unfinishedCall, c)

variable {s : Search} {rank worker g limit fuel : Nat} {call : Call} {share : Share} {buffers : List Buffers}
  {c : Coordinator}

theorem work_succ (hg : c.globalWorker rank worker = .ok g) : work s rank worker (limit + 1) share buffers c
    = resume s rank worker g limit (Call.maxSteps c.cursors.size) .claimOwn share buffers c := by
  rw [work, Coordinator.getLoop, hg]
  simp only [Coordinator.complete, resume]
  rcases Call.run g (Call.maxSteps c.cursors.size) .claimOwn c with ⟨call, c'⟩
  cases call with
  | finished u => cases u <;> rfl
  | _ => rfl

theorem resume_step (hover : call.isOver = false) : resume s rank worker g limit (fuel + 1) call share buffers c
    = resume s rank worker g limit fuel (call.step g c).1 share buffers (call.step g c).2 := by
  simp only [resume, Call.run, hover]
  rfl

theorem run_finished (u : Option WorkUnit) : Call.run g fuel (.finished u) c = (.finished u, c) := by
  cases fuel <;> rfl

theorem resume_done : resume s rank worker g limit fuel (.finished none) share buffers c = (.ok share, c) := by
  rw [resume, run_finished]

theorem resume_counted {u : WorkUnit} {share' : Share} {buffers' : List Buffers}
    (hcount : countInto s share buffers u = .ok (share', buffers')) :
    resume s rank worker g limit fuel (.finished (some u)) share buffers c
      = work s rank worker limit share' buffers' c := by
  simp only [resume, run_finished, hcount]

theorem workAll_cons {rest : List Nat} {shares : List Share} {c₁ c₂ : Coordinator}
    (hwork : work s rank worker c.callLimit ⟨0, 0⟩ s.workerBuffers c = (.ok share, c₁))
    (hrest : workAll s rank rest c₁ = (.ok shares, c₂)) :
    workAll s rank (worker :: rest) c = (.ok (share :: shares), c₂) := by
  unfold workAll
  rw [hwork]
  simp only [hrest]
  rfl

/-! ## The check of a run -/

theorem checkRun_eq_ok {e : Engine} {h : HostGraph} {t : Tally} : e.checkRun h t c = .ok () ↔
    t.numThreads ≠ 0 ∧ t.numThreads ≤ e.threads ∧ c.layout.threadsPerRank = t.numThreads ∧
      c.vertexCount = h.vertexCount := by
  unfold checkRun
  split
  · simp_all
  · split
    · simp_all
    · split
      · simp_all
      · split <;> simp_all

theorem checkRun_later {e : Engine} {h : HostGraph} {t : Tally} {c' : Coordinator} (hlater : c.Later c')
    (hcheck : e.checkRun h t c = .ok ()) : e.checkRun h t c' = .ok () := by
  rw [checkRun_eq_ok] at hcheck ⊢
  rwa [hlater.layout, hlater.vertexCount]

theorem runRank_eq_ok {e : Engine} {h : HostGraph} {p : Plan} {t t' : Tally} {c₁ c₂ : Coordinator}
    {shares : List Share} {total : Nat} (hcheck : e.checkRun h t c = .ok ())
    (hwork : workAll (e.search h p) rank (List.range t.numThreads) c = (.ok shares, c₁))
    (hadd : addShares e.pool.seconds 0 shares 0 { t with iepRedundancy := 0 } = (.ok total, t'))
    (hreport : c₁.reportResult rank total = (.ok (), c₂)) : e.runRank h p t c rank = (.ok (), t', c₂) := by
  simp only [runRank, hcheck, hwork, hadd, hreport]

end Engine

namespace Cooperation

open Engine

variable {g : HostGraph} {p : Plan} {tallies : List Tally} {run : Cooperation} {rank worker : Nat} {r : RankRun}
  {m : Member} {s : Search} {outcome : Except Fault Share × Coordinator}

/-- A worker that goes on by itself, with steps and calls enough, comes to the outcome. -/
def Resumes (run : Cooperation) (rank worker : Nat) (s : Search) (m : Member)
    (outcome : Except Fault Share × Coordinator) : Prop :=
  ∃ limit fuel, run.shared.vertexCount + m.worker.call.returned.length ≤ limit + m.worker.received.length ∧
    Call.maxSteps run.shared.layout.workers ≤ fuel + m.worker.steps ∧
    resume s rank worker (run.worker rank worker) limit fuel m.worker.call m.share m.buffers run.shared = outcome

theorem Sound.indices_lt (h : run.Sound g p tallies) (hm : run.member? rank worker = some m) :
    rank < run.shared.layout.ranks ∧ worker < run.shared.layout.threadsPerRank := by
  obtain ⟨r, hr, hm⟩ := member?_eq_some.mp hm
  constructor
  · exact h.length ▸ (List.getElem?_eq_some_iff.mp hr).1
  · exact h.length_members r (List.mem_of_getElem? hr) ▸ (List.getElem?_eq_some_iff.mp hm).1

/-- A worker that is about to make a call comes to what it is given calls for. -/
theorem Sound.resumes_work (h : run.Sound g p tallies) (hm : run.member? rank worker = some m)
    (hcall : m.worker.call = .claimOwn) {limit : Nat}
    (hlimit : run.shared.vertexCount ≤ limit + m.worker.received.length) :
    run.Resumes rank worker s m (work s rank worker (limit + 1) m.share m.buffers run.shared) := by
  obtain ⟨hrank, hworker⟩ := h.indices_lt hm
  have hg : run.shared.globalWorker rank worker = .ok (run.worker rank worker) :=
    Coordinator.globalWorker_eq_ok.mpr ⟨hrank, hworker, rfl⟩
  have hsize : run.shared.cursors.size = run.shared.layout.workers := h.crew.shared.cursors_size
  refine ⟨limit, Call.maxSteps run.shared.layout.workers, ?_, Nat.le_add_right _ _, ?_⟩
  · rwa [hcall]
  · rw [work_succ hg, hcall, hsize]

/-- A turn of the worker does not change what it comes to. -/
theorem Sound.resumes_step (h : run.Sound g p tallies) (hwrap : run.wraps (.work rank worker) = false)
    (hr : run.ranks[rank]? = some r) (hm : r.members[worker]? = some m)
    (hresumes : run.Resumes rank worker r.search m outcome) :
    ∃ m', (run.step (.work rank worker)).ranks = run.ranks.set rank (r.setMember worker m') ∧
      (run.step (.work rank worker)).Resumes rank worker r.search m' outcome := by
  have hsteps := h.steps_lt (member?_eq_some.mpr ⟨r, hr, hm⟩)
  have hsound := (h.step hwrap).1
  obtain ⟨limit, fuel, hcalls, hfuel, houtcome⟩ := hresumes
  rcases h.member_cases hr hm hwrap with ⟨hdone, heq⟩ | ⟨u, share, buffers, hu, hcount, -, heq⟩ |
      ⟨call', c', hover, hcall, hmove, heq⟩
  · rw [Cooperation.step_work hr hm heq]
    exact ⟨m, rfl, limit, fuel, hcalls, hfuel, houtcome⟩
  · have hm' := member?_step_work hr hm heq
    rw [Cooperation.step_work hr hm heq] at hsound hm' ⊢
    have hlength := h.crew.length_received_le h.filled (List.mem_of_getElem? (getElem?_crew h.length_members hr hm))
    change m.worker.received.length ≤ run.shared.vertexCount at hlength
    rw [hu] at hcalls houtcome
    change run.shared.vertexCount + 1 ≤ limit + m.worker.received.length at hcalls
    obtain ⟨limit, rfl⟩ : ∃ k, limit = k + 1 := ⟨limit - 1, by omega⟩
    rw [resume_counted hcount] at houtcome
    refine ⟨_, rfl, houtcome ▸ hsound.resumes_work hm' rfl ?_⟩
    change run.shared.vertexCount ≤ limit + m.worker.received.length
    omega
  · rw [Cooperation.step_work hr hm heq]
    obtain ⟨fuel, rfl⟩ : ∃ k, fuel = k + 1 := ⟨fuel - 1, by omega⟩
    rw [hmove.returned_eq_nil] at hcalls
    rw [resume_step hover, hcall] at houtcome
    refine ⟨_, rfl, limit, fuel, ?_, ?_, ?_⟩
    · change c'.vertexCount + call'.returned.length ≤ limit + (m.worker.received ++ call'.returned).length
      rw [hmove.later.vertexCount, List.length_append]
      have : run.shared.vertexCount + 0 ≤ limit + m.worker.received.length := hcalls
      omega
    · change Call.maxSteps c'.layout.workers ≤ fuel + (m.worker.steps + 1)
      rw [hmove.later.layout]
      omega
    · change resume r.search rank worker (rank * c'.layout.threadsPerRank + worker) limit fuel call' _ _ c' = _
      rw [hmove.later.layout]
      exact houtcome

theorem Sound.resumes_steps (turns : Nat) {run : Cooperation} {r : RankRun} {m : Member} (h : run.Sound g p tallies)
    (hwrap : run.stepsWrap (List.replicate turns (.work rank worker)) = false) (hr : run.ranks[rank]? = some r)
    (hm : r.members[worker]? = some m) (hresumes : run.Resumes rank worker r.search m outcome) :
    ∃ m', (run.steps (List.replicate turns (.work rank worker))).ranks = run.ranks.set rank (r.setMember worker m') ∧
      (run.steps (List.replicate turns (.work rank worker))).Resumes rank worker r.search m' outcome := by
  induction turns generalizing run r m with
  | zero => exact ⟨m, by rw [RankRun.setMember, set_getElem?_self hm, set_getElem?_self hr]; rfl, hresumes⟩
  | succ turns ih =>
      obtain ⟨hstep, hrest⟩ := Bool.or_eq_false_iff.mp hwrap
      obtain ⟨m₁, hranks, hresumes₁⟩ := h.resumes_step hstep hr hm hresumes
      have hr₁ : (run.step (.work rank worker)).ranks[rank]? = some (r.setMember worker m₁) := by
        rw [hranks, getElem?_set_of_some hr]
      have hm₁ : (r.setMember worker m₁).members[worker]? = some m₁ :=
        getElem?_set_of_some hm
      obtain ⟨m', hranks', hresumes'⟩ := ih (h.step hstep).1 hrest hr₁ hm₁ hresumes₁
      refine ⟨m', hranks'.trans ?_, hresumes'⟩
      rw [hranks, List.set_set, RankRun.setMember, RankRun.setMember, RankRun.setMember, List.set_set]

/-! ## Workers -/

/-- A worker that has all its turns at once counts what `Engine.work` counts. -/
theorem Sound.work_eq (h : run.Sound g p tallies) {turns limit : Nat}
    (hwrap : run.stepsWrap (List.replicate turns (.work rank worker)) = false) (hr : run.ranks[rank]? = some r)
    (hm : r.members[worker]? = some (.start r.search))
    (hturns : turnsNeeded g.vertexCount run.shared.layout.workers ≤ turns)
    (hlimit : run.shared.vertexCount < limit) :
    ∃ m, m.worker.call = .finished none ∧
      (run.steps (List.replicate turns (.work rank worker))).ranks = run.ranks.set rank (r.setMember worker m) ∧
      work r.search rank worker limit ⟨0, 0⟩ r.search.workerBuffers run.shared
        = (.ok m.share, (run.steps (List.replicate turns (.work rank worker))).shared) := by
  have hmember := member?_eq_some.mpr ⟨r, hr, hm⟩
  obtain ⟨limit, rfl⟩ : ∃ k, limit = k + 1 := ⟨limit - 1, by omega⟩
  obtain ⟨m, hranks, hresumes⟩ := h.resumes_steps turns hwrap hr hm
    (h.resumes_work (s := r.search) hmember rfl (Nat.le_of_lt_succ hlimit))
  obtain ⟨m', hm', hdone⟩ := h.isDone_of_count hwrap hmember (by rwa [List.count_replicate_self])
  obtain rfl : m = m' := by
    rw [member?, hranks, getElem?_set_of_some hr, Option.bind_some,
      RankRun.setMember, getElem?_set_of_some hm] at hm'
    exact Option.some.inj hm'
  obtain ⟨limit', fuel, -, -, houtcome⟩ := hresumes
  rw [hdone, resume_done] at houtcome
  exact ⟨m, hdone, hranks, houtcome.symm⟩

/-- The turns of the workers of a rank, one worker after the other. -/
def workerTurns (turns rank : Nat) (workers : List Nat) : List Turn :=
  workers.flatMap fun worker => List.replicate turns (.work rank worker)

theorem vertexCount_lt_callLimit (c : Coordinator) : c.vertexCount < c.callLimit :=
  Nat.le_mul_of_pos_left (c.vertexCount + 1) (Nat.succ_pos _)

/-- The remaining workers of a rank count what `Engine.workAll` counts. -/
theorem Sound.workAll_eq {turns : Nat} (n : Nat) (first : List Member) {run : Cooperation} {r : RankRun}
    (h : run.Sound g p tallies)
    (hwrap : run.stepsWrap (workerTurns turns rank (List.range' first.length n)) = false)
    (hr : run.ranks[rank]? = some r) (hmembers : r.members = first ++ List.replicate n (.start r.search))
    (hturns : turnsNeeded g.vertexCount run.shared.layout.workers ≤ turns) :
    ∃ last : List Member, (∀ m ∈ last, m.worker.call = .finished none) ∧
      (run.steps (workerTurns turns rank (List.range' first.length n))).ranks
        = run.ranks.set rank { r with members := first ++ last } ∧
      workAll r.search rank (List.range' first.length n) run.shared = (.ok (last.map Member.share),
        (run.steps (workerTurns turns rank (List.range' first.length n))).shared) := by
  induction n generalizing run r first with
  | zero =>
      refine ⟨[], nofun, ?_, rfl⟩
      rw [← show r.members = first ++ [] from hmembers, set_getElem?_self hr]
      rfl
  | succ n ih =>
      rw [List.range'_succ, workerTurns, List.flatMap_cons] at hwrap ⊢
      rw [stepsWrap_append, Bool.or_eq_false_iff] at hwrap
      rw [List.replicate_succ] at hmembers
      obtain ⟨hm, hset⟩ := r.members_append hmembers
      obtain ⟨m, hdone, hranks, hwork⟩ := h.work_eq hwrap.1 hr hm hturns (vertexCount_lt_callLimit run.shared)
      obtain ⟨hsound, hlater⟩ := h.steps _ hwrap.1
      have hlength : first.length + 1 = (first ++ [m]).length := by rw [List.length_append]; rfl
      rw [hlength] at hwrap ⊢
      obtain ⟨last, hlast, hranks', hrest⟩ := ih (first ++ [m]) (r := r.setMember first.length m) hsound hwrap.2
        (by rw [hranks, getElem?_set_of_some hr]) (hset m) (by rwa [hlater.layout])
      rw [steps_append]
      refine ⟨m :: last, List.forall_mem_cons.mpr ⟨hdone, hlast⟩, hranks'.trans ?_, workAll_cons hwork hrest⟩
      rw [hranks, List.set_set, List.append_assoc]
      rfl

/-! ## Ranks -/

/-- The turns of a rank that is carried out by itself. -/
def rankTurns (turns threads rank : Nat) : List Turn :=
  workerTurns turns rank (List.range threads) ++ List.replicate 3 (.conclude rank)

theorem step_conclude_set {c c' : Coordinator} {ranks : List RankRun} {r₀ r' : RankRun} (hr : ranks[rank]? = some r₀)
    (hstep : r.conclude rank c = (r', c')) :
    (Cooperation.mk c (ranks.set rank r)).step (.conclude rank) = ⟨c', ranks.set rank r'⟩ := by
  have hset : (Cooperation.mk c (ranks.set rank r)).ranks[rank]? = some r :=
    getElem?_set_of_some hr
  rw [step_conclude hset hstep, List.set_set]

/-- Three turns of a rank whose workers are done make its report. -/
theorem Sound.report_eq (h : run.Sound g p tallies) (hr : run.ranks[rank]? = some r) (hreport : r.report = none)
    (hdone : ∀ m ∈ r.members, m.worker.call = .finished none) :
    ∃ tally, addShares r.seconds 0 r.shares 0 r.tally = (.ok r.total, tally) ∧
      (run.steps (List.replicate 3 (.conclude rank))).ranks
        = run.ranks.set rank { r with tally, report := some .finished } ∧
      run.shared.reportResult rank r.total = (.ok (), (run.steps (List.replicate 3 (.conclude rank))).shared) := by
  obtain ⟨t, ht, hrank⟩ := h.rank rank r hr
  have haccounts := hrank.accounts
  rw [RankRun.Accounts, hreport] at haccounts
  obtain ⟨htally, hslot⟩ := haccounts
  obtain ⟨tally, hadd, -⟩ := h.addShares_eq_ok hr ht hdone
  rw [← htally] at hadd
  have hlt := h.reported_lt hr (by simp [hreport])
  let results := run.shared.results.setIfInBounds rank (some r.total)
  have hlt' : (run.shared.withReports results run.shared.reported).reported + 1 < Word.size := hlt
  have hsteps : run.steps (List.replicate 3 (.conclude rank)) =
      ⟨run.shared.withReports results (run.shared.reported + 1),
        run.ranks.set rank { r with tally, report := some .finished }⟩ := by
    rw [show run.steps (List.replicate 3 (.conclude rank)) =
        ((run.step (.conclude rank)).step (.conclude rank)).step (.conclude rank) from rfl,
      Cooperation.step_conclude hr (RankRun.conclude_add hreport hdone hadd),
      step_conclude_set hr (RankRun.conclude_fill rfl hslot), step_conclude_set hr (RankRun.conclude_count rfl hlt')]
    rfl
  rw [hsteps]
  exact ⟨tally, hadd, rfl, Coordinator.reportResult_eq_ok hslot hlt⟩

/-- A rank that has all its turns at once comes to what `Engine.runRank` comes to. -/
theorem Sound.runRank_eq (h : run.Sound g p tallies) {e : Engine} {t : Tally} {turns threads : Nat}
    (hthreads : run.shared.layout.threadsPerRank = threads)
    (hwrap : run.stepsWrap (rankTurns turns threads rank) = false)
    (hr : run.ranks[rank]? = some (.start g p threads (e, t))) (hcheck : e.checkRun g t run.shared = .ok ())
    (hturns : turnsNeeded g.vertexCount run.shared.layout.workers ≤ turns) :
    ∃ r, r.report = some .finished ∧
      (run.steps (rankTurns turns threads rank)).ranks = run.ranks.set rank r ∧
      e.runRank g p t run.shared rank = (.ok (), r.tally, (run.steps (rankTurns turns threads rank)).shared) := by
  obtain ⟨-, -, hnum, -⟩ := checkRun_eq_ok.mp hcheck
  rw [rankTurns, stepsWrap_append, List.range_eq_range', Bool.or_eq_false_iff] at hwrap
  rw [rankTurns, steps_append, List.range_eq_range']
  obtain ⟨members, hdone, hranks, hwork⟩ := h.workAll_eq threads [] hwrap.1 hr rfl hturns
  rw [List.length_nil] at hranks hwork
  have hr' : (run.steps (workerTurns turns rank (List.range' 0 threads))).ranks[rank]?
      = some ⟨e.search g p, members, e.pool.seconds, { t with iepRedundancy := 0 }, none⟩ := by
    rw [hranks]
    exact getElem?_set_of_some hr
  obtain ⟨tally, hadd, hranks', hreport⟩ := (h.steps _ hwrap.1).1.report_eq hr' rfl hdone
  refine ⟨_, rfl, by rw [hranks', hranks, List.set_set], runRank_eq_ok hcheck ?_ hadd hreport⟩
  rw [← hnum, hthreads, List.range_eq_range']
  exact hwork

end Cooperation

end PatternCount
