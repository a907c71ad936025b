import PatternCount.Proofs.Work.Balance
import PatternCount.Proofs.Work.Progress

/-!
# Calls that are not interrupted

A call that is not interleaved with others is run to its end by `Coordinator.complete`. What each of its steps
preserves holds at the end, and it gets there within the steps that it is given (`complete_eq_ok`), so that the
answer is a unit or nothing and no fault. `Served c c' u` collects what this says of the state before and after
a call that answers `u`.

An uninterrupted call finds things as they are: its scan sees what is left of each slice, and its claim does not
come too late. So it answers nothing only if nothing was there for it, that is, if all slices are exhausted and
the queue and its own backlog are empty (`Bare`), and always then (`getLoop_eq_ok`).
-/

namespace PatternCount

open WorkUnit Coordinator

namespace Call

/-- Whether a cursor wraps around in the course of that many steps of a call. -/
def runWraps (g : Nat) : (steps : Nat) → Call → Coordinator → Bool
  | 0, _, _ => false
  | steps + 1, call, c => call.wraps g c || runWraps g steps (call.step g c).1 (call.step g c).2

theorem runWraps_finished {g : Nat} {u : Option WorkUnit} {c : Coordinator} (steps : Nat) :
    runWraps g steps (.finished u) c = false := by
  induction steps with
  | zero => rfl
  | succ steps ih => exact ih

/-- To take a unit from the queue moves no cursor. -/
theorem runWraps_popQueueAgain {g : Nat} {c : Coordinator} (steps : Nat) :
    runWraps g steps .popQueueAgain c = false := by
  cases steps with
  | zero => rfl
  | succ steps =>
      rw [runWraps, Call.step]
      cases hq : c.queue.units with
      | nil =>
          rw [popQueue_nil hq]
          exact runWraps_finished steps
      | cons u rest =>
          rw [popQueue_cons hq]
          cases steps with
          | zero => rfl
          | succ steps => exact runWraps_finished steps

section Run

variable {g : Nat} {P : Nat → Call → Coordinator → Prop}

/-- What every step preserves, a run preserves; it stops early only at the end of the call. -/
theorem run_preserves
    (hP : ∀ {k call c call' c'}, c.Sound → call.Fits g c → P k call c → Move g c call call' c' → P (k + 1) call' c') :
    ∀ {steps k : Nat} {call : Call} {c : Coordinator}, c.Sound → g < c.layout.workers → call.Fits g c →
      P k call c → runWraps g steps call c = false →
        ∃ k' call' c', run g steps call c = (call', c') ∧ c.Later c' ∧ call'.Fits g c' ∧ P k' call' c' ∧
          (call'.isOver = false → k' = k + steps)
  | 0, k, call, c, _, _, hf, hk, _ => ⟨k, call, c, rfl, .refl c, hf, hk, fun _ => rfl⟩
  | steps + 1, k, call, c, hs, hg, hf, hk, hwrap => by
      obtain ⟨hstep, hrest⟩ := Bool.or_eq_false_iff.mp hwrap
      cases hover : call.isOver with
      | true =>
          refine ⟨k, call, c, by rw [run, if_pos hover], .refl c, hf, hk, ?_⟩
          intro h
          rw [hover] at h
          cases h
      | false =>
          have hmove := move_step hs hg hf hover hstep
          obtain ⟨k', call', c', hrun, hlater, hf', hk', hend⟩ := run_preserves hP (hs.later hmove.later)
            (hmove.later.layout ▸ hg) (hmove.fits hs hf) (hP hs hf hk hmove) hrest
          refine ⟨k', call', c', ?_, hmove.later.trans hlater, hf', hk', ?_⟩
          · rw [run, hover]
            exact hrun
          · intro h
            rw [hend h]
            omega

/-- If a property that keeps cursors short of the end of the word is preserved by steps, no cursor of a run wraps. -/
theorem runWraps_eq_false {P : Call → Coordinator → Prop}
    (hwraps : ∀ {call c}, c.Sound → call.Fits g c → P call c → call.wraps g c = false)
    (hP : ∀ {call c call' c'}, c.Sound → call.Fits g c → P call c → Move g c call call' c' → P call' c') :
    ∀ {steps : Nat} {call : Call} {c : Coordinator}, c.Sound → g < c.layout.workers → call.Fits g c →
      P call c → runWraps g steps call c = false
  | 0, _, _, _, _, _, _ => rfl
  | steps + 1, call, c, hs, hg, hf, hp => by
      have hwrap := hwraps hs hf hp
      rw [runWraps, hwrap, Bool.false_or]
      cases hover : call.isOver with
      | true =>
          obtain ⟨u, rfl⟩ := hf.finished hover
          exact runWraps_eq_false hwraps hP hs hg hf hp
      | false =>
          have hmove := move_step hs hg hf hover hwrap
          exact runWraps_eq_false hwraps hP (hs.later hmove.later) (hmove.later.layout ▸ hg) (hmove.fits hs hf)
            (hP hs hf hp hmove)

end Run

theorem Move.returned_eq_nil {g : Nat} {c c' : Coordinator} {call call' : Call} (h : Move g c call call' c') :
    call.returned = [] := by
  cases h <;> rfl

end Call

namespace Coordinator

variable {g : Nat} {c c' : Coordinator} {call : Call}

/-- A call that is not interrupted comes to its end, with whatever its steps preserve. -/
theorem complete_eq_ok {Q : Call → Coordinator → Prop}
    (hQ : ∀ {call c call' c'}, c.Sound → call.Fits g c → Q call c → Call.Move g c call call' c' → Q call' c')
    (hs : c.Sound) (hg : g < c.layout.workers) (hf : call.Fits g c) (htarget : call.target = none)
    (hq : Q call c) (hwrap : Call.runWraps g (Call.maxSteps c.cursors.size) call c = false) :
    ∃ u c', c.complete g call = (.ok u, c') ∧ c.Later c' ∧ Q (.finished u) c' := by
  obtain ⟨k, call', c', hrun, hlater, hf', ⟨⟨scans, htraced⟩, hq'⟩, hend⟩ :=
    Call.run_preserves (P := fun k call c => (∃ scans, call.Traced g c scans k) ∧ Q call c)
      (fun hs hf ⟨⟨_, htraced⟩, hq⟩ hmove => ⟨⟨_, hmove.traced hf htraced⟩, hQ hs hf hq hmove⟩)
      hs hg hf ⟨⟨0, Call.traced_start htarget⟩, hq⟩ hwrap
  have hover : call'.isOver = true := by
    by_contra hover
    have hlt := htraced.steps_lt hf' (hlater.layout ▸ hg)
    have hsteps := hend (Bool.eq_false_iff.mpr hover)
    rw [hlater.layout, ← hs.cursors_size] at hlt
    omega
  obtain ⟨u, rfl⟩ := hf'.finished hover
  refine ⟨u, c', ?_, hlater, hq'⟩
  rw [complete, hrun]
  rfl

end Coordinator

/-! ## What a call leaves behind -/

namespace Call

/-- What has become of the state `c₀`, in which nothing was in hand, since a call has begun. -/
structure Since (c₀ : Coordinator) (call : Call) (c : Coordinator) : Prop where
  stock : bag call.returned + call.pending + c.stock = c₀.stock
  produced : c₀.produced + c₀.unclaimed.card < Word.size →
    c.produced + call.uncounted + c.unclaimed.card = c₀.produced + c₀.unclaimed.card
  claimed : ∀ m, c₀.claimed = m % Word.size → c.claimed = (m + volume call.returned) % Word.size
  filled : (∀ u ∈ c₀.waiting, u.lo < u.hi) →
    (∀ u ∈ call.inHand, u.lo < u.hi) ∧ ∀ u ∈ c.waiting, u.lo < u.hi

def Bare (g : Nat) (c : Coordinator) : Prop :=
  (∀ v, c.remaining v = 0) ∧ c.queue.units = [] ∧ c.backlogs[g]? = some #[]

/-- `c` is `c₀` but for cursors that have moved on behind the ends of their slices. -/
structure Untouched (c₀ c : Coordinator) : Prop where
  queue : c.queue.units = c₀.queue.units
  backlogs : c.backlogs = c₀.backlogs
  remaining : ∀ v, c.remaining v = c₀.remaining v

/-- What an uninterrupted call of worker `g` that began in `c₀` has found out. -/
def Tells (g : Nat) (c₀ : Coordinator) (call : Call) (c : Coordinator) : Prop :=
  match call with
  | claimOwn => Untouched c₀ c
  | popBacklog => Untouched c₀ c ∧ c.remaining g = 0
  | popQueue => Untouched c₀ c ∧ c.remaining g = 0 ∧ c.backlogs[g]? = some #[]
  | scan peer best => Untouched c₀ c ∧ (c.remaining g = 0 ∧ c.backlogs[g]? = some #[] ∧ c.queue.units = []) ∧
      (∀ v < peer, v ≠ g → ∃ victim r, best = some (victim, r) ∧ c.remaining v ≤ r) ∧
        ∀ victim r, best = some (victim, r) → c.remaining victim = r
  | claimFrom victim _ => Untouched c₀ c ∧ 0 < c.remaining victim
  | popQueueAgain => Bare g c₀ ∧ c.queue.units = []
  | finished none => Bare g c₀
  | _ => ¬ Bare g c₀

section

variable {g : Nat} {c₀ c c' : Coordinator} {call call' : Call}

theorem since_start (hreturned : call.returned = []) (hpending : call.pending = 0)
    (huncounted : call.uncounted = 0) (hinHand : call.inHand = []) : Since c call c where
  stock := by rw [hreturned, hpending, bag_nil, zero_add, zero_add]
  produced := fun _ => by rw [huncounted, Nat.add_zero]
  claimed := fun m hm => by rw [hreturned, volume_nil, Nat.add_zero, hm]
  filled := fun h => ⟨by rw [hinHand]; nofun, h⟩

theorem Fits.made (hf : call.Fits g c) (hs : c.Sound) : ∀ u ∈ call.made g c, u.lo < u.hi := by
  cases call with
  | countOwn lo hi => exact List.forall_mem_singleton.mpr hf.1
  | countStolen victim lo hi =>
      intro u hu
      exact (bounds_of_mem_units hs.chunk_pos (Nat.lt_of_le_of_lt hf.2 hs.vertexCount_lt) u hu).2.2.1
  | _ => nofun

theorem Move.since (h : Move g c call call' c') (hs : c.Sound) (hf : call.Fits g c) (hsince : Since c₀ call c) :
    Since c₀ call' c' where
  stock := by
    have hstock := hsince.stock
    rw [h.returned_eq_nil, bag_nil, zero_add] at hstock
    rw [h.bag hs hf, hstock]
  produced := fun hfits => by
    have hproduced := hsince.produced hfits
    rw [h.produced (hproduced ▸ hfits), hproduced]
  claimed := fun m hm => by
    have hclaimed := hsince.claimed m hm
    rw [h.returned_eq_nil, volume_nil, Nat.add_zero] at hclaimed
    exact h.claimed hclaimed
  filled := fun hfilled => h.units (hf.made hs) (hsince.filled hfilled).1 (hsince.filled hfilled).2

/-! ## When there is nothing -/

theorem Untouched.advance (hu : Untouched c₀ c) {v amount : Nat} {k : Cursor} (hk : c.cursors[v]? = some k)
    (hnext : k.stop ≤ k.next) : Untouched c₀ (c.advance v k amount) :=
  ⟨hu.queue, hu.backlogs, fun w => (remaining_advance_of_le hk hnext w).trans (hu.remaining w)⟩

theorem Untouched.bare_iff (hu : Untouched c₀ c) : Bare g c₀ ↔ Bare g c := by
  rw [Bare, Bare, hu.queue, hu.backlogs]
  exact and_congr_left' (forall_congr' fun v => by rw [hu.remaining v])

theorem better_tells {peer : Nat} {best : Option (Nat × Nat)}
    (hall : ∀ v < peer, v ≠ g → ∃ victim r, best = some (victim, r) ∧ c.remaining v ≤ r)
    (hbest : ∀ victim r, best = some (victim, r) → c.remaining victim = r) :
    (∀ v < peer + 1, v ≠ g →
      ∃ victim r, better best peer (c.remaining peer) = some (victim, r) ∧ c.remaining v ≤ r) ∧
        ∀ victim r, better best peer (c.remaining peer) = some (victim, r) → c.remaining victim = r := by
  rcases best with _ | ⟨victim, most⟩
  · refine ⟨fun v hv hne => ⟨peer, c.remaining peer, rfl, ?_⟩, fun victim r h => ?_⟩
    · rcases Nat.lt_succ_iff_lt_or_eq.mp hv with hv | rfl
      · obtain ⟨_, _, h, -⟩ := hall v hv hne
        cases h
      · exact Nat.le_refl _
    · obtain ⟨rfl, rfl⟩ := Prod.mk.inj (Option.some.inj h)
      rfl
  · have hmost : ∀ v < peer, v ≠ g → c.remaining v ≤ most := fun v hv hne => by
      obtain ⟨_, _, h, hle⟩ := hall v hv hne
      obtain ⟨-, rfl⟩ := Prod.mk.inj (Option.some.inj h)
      exact hle
    rw [better]
    split
    · next hle =>
        refine ⟨fun v hv hne => ⟨peer, c.remaining peer, rfl, ?_⟩, fun victim r h => ?_⟩
        · rcases Nat.lt_succ_iff_lt_or_eq.mp hv with hv | rfl
          · exact Nat.le_trans (hmost v hv hne) hle
          · exact Nat.le_refl _
        · obtain ⟨rfl, rfl⟩ := Prod.mk.inj (Option.some.inj h)
          rfl
    · next hlt =>
        refine ⟨fun v hv hne => ⟨victim, most, rfl, ?_⟩, hbest⟩
        rcases Nat.lt_succ_iff_lt_or_eq.mp hv with hv | rfl
        · exact hmost v hv hne
        · exact Nat.le_of_not_le hlt

/-- If a scan has met nothing to steal, all slices are exhausted. -/
theorem exhausted_of_scan (hs : c.Sound) {peer : Nat} {best : Option (Nat × Nat)}
    (hpeer : c.layout.workers ≤ peer) (hown : c.remaining g = 0)
    (hall : ∀ v < peer, v ≠ g → ∃ victim r, best = some (victim, r) ∧ c.remaining v ≤ r)
    (hnone : ∀ victim r, best = some (victim, r) → r = 0) (v : Nat) : c.remaining v = 0 := by
  rcases Nat.lt_or_ge v c.layout.workers with hv | hv
  · by_cases hne : v = g
    · exact hne ▸ hown
    · obtain ⟨victim, r, hbest, hle⟩ := hall v (Nat.lt_of_lt_of_le hv hpeer) hne
      rw [hnone victim r hbest] at hle
      exact Nat.le_zero.mp hle
  · exact hs.remaining_eq_zero hv

/-- A call tells the truth at each of its steps. -/
theorem Move.tells (h : Move g c call call' c') (hs : c.Sound) (ht : Tells g c₀ call c) :
    Tells g c₀ call' c' := by
  cases h with
  | claimOwn hk hnext =>
      show ¬ Bare g c₀
      rw [Untouched.bare_iff ht]
      intro hbare
      have := remaining_eq hk ▸ hbare.1 g
      exact Nat.ne_of_gt (Nat.sub_pos_of_lt hnext) this
  | ownExhausted hk hnext =>
      refine ⟨Untouched.advance ht hk hnext, ?_⟩
      rw [remaining_advance_of_le hk hnext, remaining_eq hk]
      exact Nat.sub_eq_zero_of_le hnext
  | popBacklog hb =>
      show ¬ Bare g c₀
      rw [ht.1.bare_iff]
      intro hbare
      exact Array.push_ne_empty (Option.some.inj (hb.symm.trans hbare.2.2))
  | backlogEmpty hb => exact ⟨ht.1, ht.2, hb⟩
  | popQueue hq =>
      show ¬ Bare g c₀
      rw [ht.1.bare_iff]
      intro hbare
      exact List.cons_ne_nil _ _ (hq.symm.trans hbare.2.1)
  | queueEmpty hq => exact ⟨ht.1, ⟨ht.2.1, ht.2.2, hq⟩, nofun, nofun⟩
  | scanSelf hg =>
      obtain ⟨hu, hempty, hall, hbest⟩ := ht
      exact ⟨hu, hempty, fun v hv hne => hall v (by omega) hne, hbest⟩
  | scan hpeer hne =>
      obtain ⟨hu, hempty, hall, hbest⟩ := ht
      exact ⟨hu, hempty, better_tells hall hbest⟩
  | alone hpeer =>
      obtain ⟨hu, ⟨hown, hbacklog, hqueue⟩, hall, hbest⟩ := ht
      refine hu.bare_iff.mpr ⟨exhausted_of_scan hs hpeer hown hall ?_, hqueue, hbacklog⟩
      intro victim r h
      cases h
  | allExhausted hpeer =>
      obtain ⟨hu, ⟨hown, hbacklog, hqueue⟩, hall, hbest⟩ := ht
      refine ⟨hu.bare_iff.mpr ⟨exhausted_of_scan hs hpeer hown hall ?_, hqueue, hbacklog⟩, hqueue⟩
      intro victim r h
      obtain ⟨-, rfl⟩ := Prod.mk.inj (Option.some.inj h)
      rfl
  | choose hpeer hr =>
      obtain ⟨hu, -, -, hbest⟩ := ht
      refine ⟨hu, ?_⟩
      rw [hbest _ _ rfl]
      exact hr
  | popQueueAgain hq => exact absurd (hq.symm.trans ht.2) (List.cons_ne_nil _ _)
  | giveUp => exact ht.1
  | claimFrom hk hnext =>
      show ¬ Bare g c₀
      rw [ht.1.bare_iff]
      intro hbare
      exact Nat.ne_of_gt ht.2 (hbare.1 _)
  | missed hk hnext =>
      have hpos := ht.2
      rw [remaining_eq hk] at hpos
      exact absurd (Nat.sub_eq_zero_of_le hnext) (Nat.ne_of_gt hpos)
  | countOwn | countStolen | relinquish | overflow | keep | handOut => exact ht

end

end Call

namespace Coordinator

variable {g : Nat} {c : Coordinator}

/-- A call of a worker gets an answer, and gets nothing exactly if nothing is there for the worker. -/
theorem getLoop_eq_ok {rank worker : Nat} (hs : c.Sound) (hg : c.globalWorker rank worker = .ok g)
    (hwrap : Call.runWraps g (Call.maxSteps c.cursors.size) .claimOwn c = false) :
    ∃ u c', c.getLoop rank worker = (.ok u, c') ∧ c.Later c' ∧ Call.Since c (.finished u) c' ∧
      (u = none ↔ Call.Bare g c) := by
  have htells : Call.Tells g c .claimOwn c := ⟨rfl, rfl, fun _ => rfl⟩
  obtain ⟨u, c', hcomplete, hlater, hsince, htells⟩ := complete_eq_ok
    (Q := fun call c' => Call.Since c call c' ∧ Call.Tells g c call c')
    (fun hs hf hq hmove => ⟨hmove.since hs hf hq.1, hmove.tells hs hq.2⟩) hs (globalWorker_lt hg)
    (show Call.claimOwn.Fits g c from trivial) rfl ⟨Call.since_start rfl rfl rfl rfl, htells⟩ hwrap
  refine ⟨u, c', ?_, hlater, hsince, ?_⟩
  · rw [getLoop, hg]
    exact hcomplete
  · cases u with
    | none => exact iff_of_true rfl htells
    | some u => exact iff_of_false nofun htells

theorem frontAndPop_eq_ok (hs : c.Sound) :
    ∃ u c', c.frontAndPop = (.ok u, c') ∧ c.Later c' ∧ Call.Since c (.finished u) c' :=
  complete_eq_ok (Q := Call.Since c) (fun hs hf hq hmove => hmove.since hs hf hq) hs hs.workers_pos
    (show Call.popQueueAgain.Fits 0 c from trivial) rfl (Call.since_start rfl rfl rfl rfl)
    (Call.runWraps_popQueueAgain _)

theorem frontAndPop_cons {u : WorkUnit} {rest : List WorkUnit} (hq : c.queue.units = u :: rest) :
    c.frontAndPop = (.ok (some u), (c.setQueue rest).addClaimed u.size) := by
  simp only [frontAndPop, complete, Call.maxSteps, Call.run, Call.isOver, Call.step, popQueue_cons hq]
  rfl

end Coordinator

end PatternCount
