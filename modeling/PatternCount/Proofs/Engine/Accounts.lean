import PatternCount.Proofs.Engine.Cooperation

/-!
# The accounts of a run

What holds throughout a cooperation in which no cursor wraps around (`Cooperation.Sound`): its workers are a sound
crew; each worker has counted what it has received, but for a unit that it has just got; and a rank whose workers
are done has added to its tally what they have counted, and reports it (`RankRun.Accounts`).

Counting does not fail, as long as there is room in the tallies for whatever a rank may come to count
(`Tally.HasRoom`): the units that workers receive are different parts of the vertices of the graph, so that none of
them counts more than all tuples (`Cooperation.Sound.fits`). So a turn of a worker keeps the accounts in order
(`Cooperation.Sound.step_work`).
-/

namespace PatternCount

open WorkUnit Engine

/-- A tally has a slot of each kind for each worker, and room for all tuples and vertices in them. -/
structure Tally.HasRoom (g : HostGraph) (p : Plan) (threads : Nat) (t : Tally) : Prop where
  results_size : t.results.size = threads
  handled_size : t.handled.size = threads
  elapsed_size : t.elapsed.size = threads
  results_fit : t.results.toList.sum + Level.tupleCount p.levels g < Word.size
  handled_fit : t.handled.toList.sum + g.vertexCount < Word.size

/-- What holds of a worker that counts with the search `s`. -/
structure Member.Sound (s : Search) (m : Member) : Prop where
  returned : m.worker.call.returned <:+ m.worker.received
  result : m.share.result + s.plan.yield s.graph (bag m.worker.call.returned)
    = s.plan.yield s.graph (bag m.worker.received)
  handled : m.share.handled + volume m.worker.call.returned = volume m.worker.received
  buffers : m.buffers.length = s.plan.depth - 1

namespace RankRun

variable (r : RankRun)

def received : List WorkUnit := r.members.flatMap (·.worker.received)

def total : Nat := (r.shares.map Share.result).sum

def handled : Nat := (r.shares.map Share.handled).sum

/-- The workers are done, and what they have counted has been added to the tally `t`, and up. -/
def Concluded (t : Tally) : Prop :=
  (∀ m ∈ r.members, m.worker.call = .finished none) ∧ addShares r.seconds 0 r.shares 0 t = (.ok r.total, r.tally)

/-- How the tally and the report of a rank stand, which has begun with the tally `t`. -/
def Accounts (t : Tally) (rank : Nat) (c : Coordinator) : Prop :=
  match r.report with
  | none => r.tally = t ∧ c.results[rank]? = some none
  | some (.fill rank' total) => r.Concluded t ∧ rank' = rank ∧ total = r.total ∧ c.results[rank]? = some none
  | some (.failed _) => False
  | some _ => r.Concluded t ∧ c.results[rank]? = some (some r.total)

def isReported : Nat := if r.report = some .finished then 1 else 0

/-- What holds of a rank in a run over `g`, which has begun with the tally `t`. -/
structure Sound (g : HostGraph) (p : Plan) (t : Tally) (rank : Nat) (c : Coordinator) : Prop where
  graph : r.search.graph = g
  plan : r.search.plan = p
  length : r.members.length = c.layout.threadsPerRank
  member : ∀ m ∈ r.members, m.Sound r.search
  accounts : r.Accounts t rank c

end RankRun

/-- What holds of a run over `g` of ranks that have begun with certain tallies. -/
structure Cooperation.Sound (g : HostGraph) (p : Plan) (tallies : List Tally) (run : Cooperation) : Prop where
  closed : g.Closed
  room : ∀ t ∈ tallies, t.HasRoom g p run.shared.layout.threadsPerRank
  crew : run.crew.Sound
  filled : run.crew.Filled
  vertexCount : run.shared.vertexCount = g.vertexCount
  length : run.ranks.length = run.shared.layout.ranks
  small : run.shared.layout.ranks < Word.size
  rank : ∀ (i : Nat) r, run.ranks[i]? = some r → ∃ t, tallies[i]? = some t ∧ r.Sound g p t i run.shared
  results_size : run.shared.results.size = run.shared.layout.ranks
  reported : run.shared.reported = (run.ranks.map RankRun.isReported).sum

section

variable {g : HostGraph} {p : Plan} {t : Tally} {tallies : List Tally} {run : Cooperation} {rank worker : Nat}
  {r r' : RankRun} {m m' : Member} {c c' : Coordinator} {s : Search}

/-! ## Workers -/

theorem Member.sound_start (s : Search) : (Member.start s).Sound s where
  returned := List.nil_suffix
  result := rfl
  handled := rfl
  buffers := List.length_replicate

theorem Member.Sound.after (h : m.Sound s) {g : Nat} {call' : Call} (hmove : Call.Move g c m.worker.call call' c') :
    ({ m with worker := m.worker.after call' } : Member).Sound s where
  returned := List.suffix_append _ _
  result := by
    have hresult := h.result
    rw [hmove.returned_eq_nil, bag_nil, Plan.yield_zero, Nat.add_zero] at hresult
    show m.share.result + _ = s.plan.yield s.graph (bag (m.worker.received ++ call'.returned))
    rw [hresult, bag_append, Plan.yield_add]
    rfl
  handled := by
    have hhandled := h.handled
    rw [hmove.returned_eq_nil, volume_nil, Nat.add_zero] at hhandled
    show m.share.handled + _ = volume (m.worker.received ++ call'.returned)
    rw [hhandled, volume_append]
    rfl
  buffers := h.buffers

/-- A worker that has got a unit counts it. -/
theorem Member.Sound.count (h : m.Sound s) (hg : s.graph.Closed) {u : WorkUnit}
    (hu : m.worker.call = .finished (some u)) (hreceived : bag m.worker.received ≤ span 0 s.graph.vertexCount)
    (hresult : s.plan.yield s.graph (bag m.worker.received) < Word.size)
    (hhandled : volume m.worker.received < Word.size) :
    ∃ share buffers, countInto s m.share m.buffers u = .ok (share, buffers) ∧
      (⟨m.worker.again, share, buffers⟩ : Member).Sound s := by
  have hreturned : m.worker.call.returned = [u] := by rw [hu]; rfl
  have hsuffix := h.returned
  have hresult' := h.result
  have hhandled' := h.handled
  rw [hreturned] at hsuffix hresult' hhandled'
  rw [volume_cons, volume_nil, Nat.add_zero] at hhandled'
  have hbag : bag [u] ≤ bag m.worker.received := by
    obtain ⟨front, hfront⟩ := hsuffix
    rw [← hfront, bag_append]
    exact Multiset.le_add_left _ _
  obtain ⟨buffers, hcount, hbuffers⟩ := countInto_eq_ok hg (hbag.trans hreceived) h.buffers (hresult' ▸ hresult)
    (hhandled' ▸ hhandled)
  exact ⟨_, buffers, hcount, List.nil_suffix, hresult', hhandled', hbuffers⟩

theorem Member.Sound.share_eq (h : m.Sound s) (hdone : m.worker.call = .finished none) :
    m.share.result = s.plan.yield s.graph (bag m.worker.received) ∧ m.share.handled = volume m.worker.received := by
  have hreturned : m.worker.call.returned = [] := by rw [hdone]; rfl
  have hresult := h.result
  have hhandled := h.handled
  rw [hreturned, bag_nil, Plan.yield_zero, Nat.add_zero] at hresult
  rw [hreturned, volume_nil, Nat.add_zero] at hhandled
  exact ⟨hresult, hhandled⟩

/-! ## Ranks -/

namespace RankRun

theorem Sound.congr (h : r.Sound g p t rank c) (hlayout : c'.layout = c.layout)
    (hresults : c'.results[rank]? = c.results[rank]?) : r.Sound g p t rank c' where
  graph := h.graph
  plan := h.plan
  length := hlayout ▸ h.length
  member := h.member
  accounts := by
    have haccounts := h.accounts
    unfold Accounts at haccounts ⊢
    rwa [hresults]

/-- As long as a worker is not done, its rank has not reported. -/
theorem Sound.report_eq_none (h : r.Sound g p t rank c) (hm : m ∈ r.members)
    (hbusy : m.worker.call ≠ .finished none) : r.report = none ∧ r.tally = t ∧ c.results[rank]? = some none := by
  have haccounts := h.accounts
  unfold Accounts at haccounts
  split at haccounts
  · next hreport => exact ⟨hreport, haccounts⟩
  · exact absurd (haccounts.1.1 m hm) hbusy
  · exact haccounts.elim
  · exact absurd (haccounts.1.1 m hm) hbusy

/-- When its workers are done, a rank has counted the tuples that begin in the units that they have received. -/
theorem Sound.total_eq (h : r.Sound g p t rank c) (hdone : ∀ m ∈ r.members, m.worker.call = .finished none) :
    r.total = p.yield g (bag r.received) ∧ r.handled = volume r.received := by
  have hshares : ∀ m ∈ r.members, m.share.result = p.yield g (bag m.worker.received) ∧
      m.share.handled = volume m.worker.received := fun m hm => by
    have hshare := (h.member m hm).share_eq (hdone m hm)
    rwa [h.graph, h.plan] at hshare
  constructor
  · rw [total, shares, List.map_map, received, bag_flatMap, Plan.yield_sum, List.map_map]
    exact congrArg List.sum (List.map_congr_left fun m hm => (hshares m hm).1)
  · rw [handled, shares, List.map_map, received, volume_flatMap]
    exact congrArg List.sum (List.map_congr_left fun m hm => (hshares m hm).2)

end RankRun

namespace Cooperation

/-! ## What has been received -/

theorem received_crew : run.crew.received = run.ranks.flatMap RankRun.received := by
  rw [Crew.received, crew, List.flatMap_assoc]
  refine List.flatMap_congr fun r _ => ?_
  rw [RankRun.workers, List.flatMap_map]
  rfl

theorem Sound.length_members (h : run.Sound g p tallies) :
    ∀ r ∈ run.ranks, r.members.length = run.shared.layout.threadsPerRank := by
  intro r hr
  obtain ⟨i, hi⟩ := List.getElem?_of_mem hr
  obtain ⟨t, -, hrank⟩ := h.rank i r hi
  exact hrank.length

theorem Sound.bag_received_le (h : run.Sound g p tallies) (hr : r ∈ run.ranks) :
    bag r.received ≤ span 0 g.vertexCount := by
  have hall : bag run.crew.received ≤ span 0 run.shared.vertexCount := h.crew.bag_received_le
  rw [received_crew, bag_flatMap, h.vertexCount] at hall
  exact le_trans (List.le_sum_of_mem (List.mem_map_of_mem (f := fun r => bag r.received) hr)) hall

theorem Sound.bag_member_le (h : run.Sound g p tallies) (hr : r ∈ run.ranks) (hm : m ∈ r.members) :
    bag m.worker.received ≤ span 0 g.vertexCount := by
  refine le_trans ?_ (h.bag_received_le hr)
  rw [RankRun.received, bag_flatMap]
  exact List.le_sum_of_mem (List.mem_map_of_mem (f := fun m : Member => bag m.worker.received) hm)

/-- Whatever vertices have been received, the tuples that begin with them can be counted, and they themselves. -/
theorem Sound.fits (h : run.Sound g p tallies) (ht : t ∈ tallies) {units : List WorkUnit}
    (hunits : bag units ≤ span 0 g.vertexCount) :
    t.results.toList.sum + p.yield g (bag units) < Word.size ∧
      t.handled.toList.sum + volume units < Word.size := by
  have hroom := h.room t ht
  have hyield := Plan.yield_mono (p := p) (g := g) hunits
  rw [Plan.yield_span] at hyield
  have hcard := Multiset.card_le_card hunits
  rw [card_bag, card_span, Nat.sub_zero] at hcard
  have hresults := hroom.results_fit
  have hhandled := hroom.handled_fit
  omega

/-! ## Turns of workers -/

/-- At its turn a worker is done, counts the unit that it has got, or makes a step of its call. -/
theorem Sound.member_cases (h : run.Sound g p tallies) (hr : run.ranks[rank]? = some r)
    (hm : r.members[worker]? = some m) (hwrap : run.wraps (.work rank worker) = false) :
    (m.worker.call = .finished none ∧ m.step r.search (run.worker rank worker) run.shared = (m, run.shared)) ∨
      (∃ u share buffers, m.worker.call = .finished (some u) ∧
        countInto r.search m.share m.buffers u = .ok (share, buffers) ∧
        (⟨m.worker.again, share, buffers⟩ : Member).Sound r.search ∧
        m.step r.search (run.worker rank worker) run.shared = (⟨m.worker.again, share, buffers⟩, run.shared)) ∨
      ∃ call' c', m.worker.call.isOver = false ∧
        m.worker.call.step (run.worker rank worker) run.shared = (call', c') ∧
        Call.Move (run.worker rank worker) run.shared m.worker.call call' c' ∧
        m.step r.search (run.worker rank worker) run.shared = ({ m with worker := m.worker.after call' }, c') := by
  have hmem := List.mem_of_getElem? hr
  have hw := getElem?_crew h.length_members hr hm
  obtain ⟨t, ht, hrank⟩ := h.rank rank r hr
  rw [← wraps_crew h.length_members hr hm] at hwrap
  cases hover : m.worker.call.isOver with
  | false =>
      have hworker := h.crew.worker _ _ hw
      have hg : run.worker rank worker < run.shared.layout.workers :=
        h.crew.length ▸ (List.getElem?_eq_some_iff.mp hw).1
      have hcall : m.worker.call.wraps (run.worker rank worker) run.shared = false := by
        rw [Crew.wraps, hw] at hwrap
        exact hwrap
      exact .inr (.inr ⟨(m.worker.call.step _ run.shared).1, (m.worker.call.step _ run.shared).2, rfl, rfl,
        Call.move_step h.crew.shared hg hworker.fits hover hcall, Member.step_of_not_over hover⟩)
  | true =>
      obtain ⟨u, hu⟩ := (h.crew.worker _ _ hw).fits.finished hover
      cases u with
      | none => exact .inl ⟨hu, Member.step_of_done hu⟩
      | some u =>
          have hsmall := h.fits (List.mem_of_getElem? ht) (h.bag_member_le hmem (List.mem_of_getElem? hm))
          have hreceived := h.bag_member_le hmem (List.mem_of_getElem? hm)
          rw [← hrank.graph, ← hrank.plan] at hsmall
          rw [← hrank.graph] at hreceived
          obtain ⟨share, buffers, hcount, hsound⟩ := (hrank.member m (List.mem_of_getElem? hm)).count
            (hrank.graph ▸ h.closed) hu hreceived (by omega) (by omega)
          exact .inr (.inl ⟨u, share, buffers, hu, hcount, hsound, Member.step_of_counted hu hcount⟩)

/-- A turn of a worker that is not done leaves the others as they are, and the accounts in order. -/
theorem Sound.setMember (h : run.Sound g p tallies) (hr : run.ranks[rank]? = some r)
    (hm : r.members[worker]? = some m) (hbusy : m.worker.call ≠ .finished none) (hm' : m'.Sound r.search)
    (hlater : run.shared.Later c')
    (hreports : c'.results = run.shared.results ∧ c'.reported = run.shared.reported)
    (hcrew : (Crew.mk c' (run.crew.workers.set (run.worker rank worker) m'.worker)).Sound)
    (hfilled : (Crew.mk c' (run.crew.workers.set (run.worker rank worker) m'.worker)).Filled) :
    (Cooperation.mk c' (run.ranks.set rank (r.setMember worker m'))).Sound g p tallies := by
  obtain ⟨t, ht, hrank⟩ := h.rank rank r hr
  obtain ⟨hreport, htally, hslot⟩ := hrank.report_eq_none (List.mem_of_getElem? hm) hbusy
  have hcrew_eq : (Cooperation.mk c' (run.ranks.set rank (r.setMember worker m'))).crew = _ :=
    crew_setMember h.length_members hr hm
  exact {
    closed := h.closed
    room := hlater.layout ▸ h.room
    crew := hcrew_eq ▸ hcrew
    filled := hcrew_eq ▸ hfilled
    vertexCount := hlater.vertexCount.trans h.vertexCount
    length := by rw [List.length_set, h.length, hlater.layout]
    small := hlater.layout ▸ h.small
    rank := fun i r₀ hi => by
      by_cases hne : i = rank
      · subst hne
        rw [getElem?_set_of_some hr] at hi
        obtain rfl := Option.some.inj hi
        refine ⟨t, ht, hrank.graph, hrank.plan, ?_, fun m₀ hm₀ => ?_, ?_⟩
        · rw [RankRun.setMember, List.length_set, hrank.length, hlater.layout]
        · rcases List.mem_or_eq_of_mem_set hm₀ with hm₀ | rfl
          · exact hrank.member m₀ hm₀
          · exact hm'
        · unfold RankRun.Accounts
          rw [RankRun.setMember, hreport, hreports.1]
          exact ⟨htally, hslot⟩
      · rw [List.getElem?_set_ne (Ne.symm hne)] at hi
        obtain ⟨t₀, ht₀, hrank₀⟩ := h.rank i r₀ hi
        exact ⟨t₀, ht₀, hrank₀.congr hlater.layout (by rw [hreports.1])⟩
    results_size := by rw [hreports.1, h.results_size, hlater.layout]
    reported := by
      have hsum := sum_map_set RankRun.isReported (b := r.setMember worker m') hr
      rw [hreports.2, h.reported]
      exact (Nat.add_right_cancel hsum).symm }

theorem Sound.step_work (h : run.Sound g p tallies) (hwrap : run.wraps (.work rank worker) = false) :
    (run.step (.work rank worker)).Sound g p tallies ∧
      run.shared.Later (run.step (.work rank worker)).shared := by
  rcases run.member?_cases rank worker with ⟨-, hstep⟩ | ⟨r, m, hr, hm⟩
  · rw [hstep]
    exact ⟨h, .refl _⟩
  have hw := getElem?_crew h.length_members hr hm
  have hcrew := hwrap
  rw [← wraps_crew h.length_members hr hm] at hcrew
  obtain ⟨t, -, hrank⟩ := h.rank rank r hr
  rcases h.member_cases hr hm hwrap with ⟨-, hstep⟩ | ⟨u, share, buffers, hu, -, hsound, hstep⟩ |
      ⟨call', c', hover, hcall, hmove, hstep⟩
  · rw [Cooperation.step_work hr hm hstep, RankRun.setMember, set_getElem?_self hm, set_getElem?_self hr]
    exact ⟨h, .refl _⟩
  · rw [Cooperation.step_work hr hm hstep]
    have hagain : run.crew.step (run.worker rank worker)
        = ⟨run.shared, run.crew.workers.set (run.worker rank worker) m.worker.again⟩ := by
      simp only [Crew.step, hw, Worker.step_of_finished hu]
      rfl
    refine ⟨h.setMember hr hm (by simp [hu]) hsound (.refl _) ⟨rfl, rfl⟩ (h.crew.again hw hu) ?_, .refl _⟩
    rw [← hagain]
    exact h.filled.step h.crew hcrew
  · rw [Cooperation.step_work hr hm hstep]
    have hafter : run.crew.step (run.worker rank worker)
        = ⟨c', run.crew.workers.set (run.worker rank worker) (m.worker.after call')⟩ := by
      simp only [Crew.step, hw, Worker.step_of_not_over hover]
      rw [show run.crew.shared = run.shared from rfl, hcall]
    refine ⟨h.setMember hr hm ?_ ((hrank.member m (List.mem_of_getElem? hm)).after hmove) hmove.later
      hmove.reports (h.crew.move hw hmove) ?_, hmove.later⟩
    · intro hdone
      rw [hdone] at hover
      cases hover
    · rw [← hafter]
      exact h.filled.step h.crew hcrew

end Cooperation

end

end PatternCount
