import PatternCount.Proofs.Work.Balance
import PatternCount.Proofs.Work.Progress

/-!
# Workers that run side by side

A `Crew` is a coordinator and its workers, each of which makes one call for work after the other. A schedule
says whose step comes next; any list of workers is one, so that the runs of a crew are all the ways in which the
steps of their calls can be interleaved. `Crew.Sound` is what all runs preserve in which no cursor wraps around
(`Crew.Sound.run`):

- the vertices in the units that were received, in the hands of calls and in the stock are all vertices, each
  once, and the counters follow;
- every call fits and is traced;
- what a worker has found empty, its own slice and its own backlog, stays empty until its next call
  (`Call.Settled`), since only it adds to its backlog;
- if there is a unit in the queue, some worker will look into the queue before it gives up (`Call.Watchful`):
  whoever puts units there hands out one itself and calls again.

So no vertex is handed out twice, every call comes to its end, and when all workers have got nothing from their
last calls, all vertices have been handed out.
-/

namespace PatternCount

open WorkUnit

/-! ## What a call has seen -/

namespace Call

/-- What a call of worker `g` has found empty is empty. -/
def Settled (g : Nat) (c : Coordinator) : Call → Prop
  | claimOwn => True
  | countOwn _ _ => True
  | popBacklog => c.remaining g = 0
  | handOut _ => True
  | finished (some _) => True
  | _ => c.remaining g = 0 ∧ c.backlogs[g]? = some #[]

/-- The worker of a call will look into the queue before it gives up. -/
def Watchful : Call → Prop
  | claimOwn => True
  | countOwn _ _ => True
  | popBacklog => True
  | popQueue => True
  | keep _ _ => True
  | handOut _ => True
  | finished (some _) => True
  | _ => False

section

open Coordinator

variable {g : Nat} {c c' : Coordinator} {call call' : Call}

theorem Settled.later (h : call.Settled g c) (hlater : c.Later c')
    (hbacklog : c'.backlogs[g]? = c.backlogs[g]?) : call.Settled g c' := by
  have hremaining : c.remaining g = 0 → c'.remaining g = 0 :=
    fun h => Nat.le_zero.mp (h ▸ hlater.remaining_le g)
  unfold Settled at *
  split at h
  · trivial
  · trivial
  · exact hremaining h
  · trivial
  · trivial
  · exact ⟨hremaining h.1, hbacklog.trans h.2⟩

theorem Move.backlogs (h : Move g c call call' c') {v : Nat} (hv : v ≠ g) :
    c'.backlogs[v]? = c.backlogs[v]? := by
  cases h with
  | popBacklog hb | keep hb =>
      rw [getElem?_backlogs_setBacklog hb, if_neg hv.symm]
  | _ => rfl

theorem Move.settled (h : Move g c call call' c') (hs : call.Settled g c) : call'.Settled g c' := by
  cases h with
  | ownExhausted hk hnext =>
      show (c.advance g _ _).remaining g = 0
      rw [remaining_advance_of_le hk hnext, remaining_eq hk]
      exact Nat.sub_eq_zero_of_le hnext
  | backlogEmpty hb => exact ⟨hs, hb⟩
  | claimFrom hk | missed hk =>
      have hsame : c.remaining g = 0 ∧ c.backlogs[g]? = some #[] := hs
      exact ⟨Nat.le_zero.mp (hsame.1 ▸ (later_advance hk).remaining_le g), hsame.2⟩
  | claimOwn | countOwn | popBacklog | popQueue | popQueueAgain | relinquish | keep | handOut => trivial
  | _ => exact hs

/-- A call that leaves units in the queue will be followed by a look there, unless they were there before. -/
theorem Move.watchful (h : Move g c call call' c') (hqueue : c'.queue.units ≠ []) :
    call'.Watchful ∨ c.queue.units ≠ [] ∧ ¬ call.Watchful := by
  cases h with
  | queueEmpty hq | giveUp hq => exact absurd hq hqueue
  | scanSelf | scan | alone | allExhausted | choose | claimFrom | missed | countStolen =>
      exact .inr ⟨hqueue, not_false⟩
  | _ => exact .inl trivial

end

end Call

/-! ## Workers -/

/-- A worker that makes one call for work after the other. -/
structure Worker where
  call : Call
  received : List WorkUnit
  /-- How often its last call has begun to look at the workers. -/
  scans : Nat
  /-- How many steps its last call has taken. -/
  steps : Nat
deriving DecidableEq, Repr

namespace Worker

def start : Worker := ⟨.claimOwn, [], 0, 0⟩

def after (w : Worker) (call : Call) : Worker :=
  { call
    received := w.received ++ call.returned
    scans := w.scans + call.beginsScan
    steps := w.steps + 1 }

def again (w : Worker) : Worker := { start with received := w.received }

def step (g : Nat) (w : Worker) (c : Coordinator) : Worker × Coordinator :=
  match w.call with
  | .finished _ => (w.again, c)
  | call =>
      let (call, c) := call.step g c
      (w.after call, c)

def holds (w : Worker) : Multiset Nat := bag w.received + w.call.pending

/-- What holds of worker `g` in a run. -/
structure Sound (g : Nat) (c : Coordinator) (w : Worker) : Prop where
  fits : w.call.Fits g c
  traced : w.call.Traced g c w.scans w.steps
  settled : w.call.Settled g c

variable {g : Nat} {w : Worker} {c c' : Coordinator} {call' : Call}

theorem sound_start : start.Sound g c := ⟨trivial, Call.traced_start rfl, trivial⟩

theorem sound_again : w.again.Sound g c := ⟨trivial, Call.traced_start rfl, trivial⟩

theorem step_of_finished {u : Option WorkUnit} (h : w.call = .finished u) : w.step g c = (w.again, c) := by
  rw [step, h]

theorem step_of_not_over (h : w.call.isOver = false) :
    w.step g c = (w.after (w.call.step g c).1, (w.call.step g c).2) := by
  unfold step
  split
  · next hcall =>
      rw [hcall] at h
      cases h
  · rfl

theorem Sound.later (h : w.Sound g c) (hlater : c.Later c') (hbacklog : c'.backlogs[g]? = c.backlogs[g]?) :
    w.Sound g c' :=
  ⟨h.fits.later hlater, h.traced.later hlater, h.settled.later hlater hbacklog⟩

theorem Sound.after (h : w.Sound g c) (hc : c.Sound) (hmove : Call.Move g c w.call call' c') :
    (w.after call').Sound g c' :=
  ⟨hmove.fits hc h.fits, hmove.traced h.fits h.traced, hmove.settled h.settled⟩

end Worker

/-! ## Crews -/

/-- A coordinator and the workers that share it. -/
structure Crew where
  shared : Coordinator
  workers : List Worker
deriving DecidableEq, Repr

namespace Crew

/-- A worker for every slice, each about to make its first call. -/
def start (c : Coordinator) : Crew := ⟨c, List.replicate c.layout.workers .start⟩

def step (crew : Crew) (g : Nat) : Crew :=
  match crew.workers[g]? with
  | some w =>
      let (w, c) := w.step g crew.shared
      ⟨c, crew.workers.set g w⟩
  | none => crew

/-- The workers take steps in the order of the schedule. -/
def run (crew : Crew) (schedule : List Nat) : Crew := schedule.foldl step crew

def wraps (crew : Crew) (g : Nat) : Bool := crew.workers[g]?.any fun w => w.call.wraps g crew.shared

def runWraps (crew : Crew) : (schedule : List Nat) → Bool
  | [] => false
  | g :: rest => crew.wraps g || (crew.step g).runWraps rest

def received (crew : Crew) : List WorkUnit := crew.workers.flatMap (·.received)

/-- What holds of a crew in a run. -/
structure Sound (crew : Crew) : Prop where
  shared : crew.shared.Sound
  length : crew.workers.length = crew.shared.layout.workers
  worker : ∀ (g : Nat) w, crew.workers[g]? = some w → w.Sound g crew.shared
  watched : crew.shared.queue.units ≠ [] → ∃ w ∈ crew.workers, w.call.Watchful
  cover : (crew.workers.map Worker.holds).sum + crew.shared.stock = span 0 crew.shared.vertexCount
  produced : crew.shared.produced + (crew.workers.map (·.call.uncounted)).sum + crew.shared.unclaimed.card
    = crew.shared.vertexCount
  claimed : crew.shared.claimed = (crew.workers.map (volume ·.received)).sum % Word.size

variable {crew : Crew} {g : Nat} {w w' : Worker} {c c' : Coordinator} {units : List WorkUnit}

theorem mem_set_of_ne {w₀ : Worker} (hw : crew.workers[g]? = some w) (hw₀ : w₀ ∈ crew.workers) (hne : w₀ ≠ w) :
    w₀ ∈ crew.workers.set g w' := by
  obtain ⟨v, hv⟩ := List.getElem?_of_mem hw₀
  refine List.mem_of_getElem? (i := v) ?_
  rw [List.getElem?_set_ne, hv]
  rintro rfl
  exact hne (Option.some.inj (hv.symm.trans hw))

/-- Replacing one worker and the shared state keeps a crew sound, if what concerns the others stays in place and
the sums stay the same. -/
theorem Sound.replace (h : crew.Sound) (hw : crew.workers[g]? = some w) (hlater : crew.shared.Later c')
    (hw' : w'.Sound g c') (hbacklogs : ∀ v ≠ g, c'.backlogs[v]? = crew.shared.backlogs[v]?)
    (hwatched : c'.queue.units ≠ [] →
      w'.call.Watchful ∨ crew.shared.queue.units ≠ [] ∧ ¬ w.call.Watchful)
    (hcover : w'.holds + c'.stock = w.holds + crew.shared.stock)
    (hproduced : c'.produced + w'.call.uncounted + c'.unclaimed.card
      = crew.shared.produced + w.call.uncounted + crew.shared.unclaimed.card)
    (hreceived : w'.received = w.received ++ units)
    (hclaimed : ∀ m, crew.shared.claimed = m % Word.size → c'.claimed = (m + volume units) % Word.size) :
    (Crew.mk c' (crew.workers.set g w')).Sound where
  shared := h.shared.later hlater
  length := by rw [List.length_set, h.length, hlater.layout]
  worker := fun v w₀ hv => by
    by_cases hne : v = g
    · subst hne
      rw [List.getElem?_set_self (List.getElem?_eq_some_iff.mp hw).1] at hv
      obtain rfl := Option.some.inj hv
      exact hw'
    · rw [List.getElem?_set_ne (Ne.symm hne)] at hv
      exact (h.worker v w₀ hv).later hlater (hbacklogs v hne)
  watched := fun hqueue => by
    rcases hwatched hqueue with hwatch | ⟨hqueue, hwatch⟩
    · exact ⟨w', List.mem_set (List.getElem?_eq_some_iff.mp hw).1 _, hwatch⟩
    · obtain ⟨w₀, hw₀, hwatch₀⟩ := h.watched hqueue
      refine ⟨w₀, mem_set_of_ne hw hw₀ ?_, hwatch₀⟩
      rintro rfl
      exact hwatch hwatch₀
  cover := by
    have hsum := sum_map_set Worker.holds (b := w') hw
    apply add_right_cancel (b := w.holds)
    calc ((crew.workers.set g w').map Worker.holds).sum + c'.stock + w.holds
        = ((crew.workers.set g w').map Worker.holds).sum + w.holds + c'.stock := add_right_comm _ _ _
      _ = (crew.workers.map Worker.holds).sum + (w'.holds + c'.stock) := by rw [hsum, add_assoc]
      _ = (crew.workers.map Worker.holds).sum + crew.shared.stock + w.holds := by
          rw [hcover, add_comm w.holds, add_assoc]
      _ = span 0 c'.vertexCount + w.holds := by rw [h.cover, hlater.vertexCount]
  produced := by
    have hsum := sum_map_set (fun w : Worker => w.call.uncounted) (b := w') hw
    have hall := h.produced
    have hcount := hlater.vertexCount
    show c'.produced + ((crew.workers.set g w').map (·.call.uncounted)).sum + c'.unclaimed.card = c'.vertexCount
    omega
  claimed := by
    have hsum := sum_map_set (fun w : Worker => volume w.received) (b := w') hw
    rw [hreceived, volume_append, Nat.add_comm (volume w.received), ← Nat.add_assoc] at hsum
    rw [Nat.add_right_cancel hsum]
    exact hclaimed _ h.claimed

theorem Sound.again (h : crew.Sound) (hw : crew.workers[g]? = some w) {u : Option WorkUnit}
    (hu : w.call = .finished u) : (Crew.mk crew.shared (crew.workers.set g w.again)).Sound := by
  have hnone : w.call.pending = 0 ∧ w.call.uncounted = 0 := by
    rw [hu]
    exact ⟨rfl, rfl⟩
  have hreceived : w.again.received = w.received ++ [] := (List.append_nil _).symm
  refine h.replace hw (.refl _) Worker.sound_again (fun _ _ => rfl) (fun _ => .inl trivial) ?_ ?_ hreceived
    fun m hm => hm
  · rw [Worker.holds, Worker.holds, hnone.1]
    rfl
  · rw [hnone.2]
    rfl

theorem Sound.move (h : crew.Sound) (hw : crew.workers[g]? = some w) {call' : Call}
    (hmove : Call.Move g crew.shared w.call call' c') :
    (Crew.mk c' (crew.workers.set g (w.after call'))).Sound := by
  have hworker := h.worker g w hw
  have hle : crew.shared.produced + w.call.uncounted + crew.shared.unclaimed.card < Word.size := by
    have hsum := sum_map_set (fun w : Worker => w.call.uncounted) (b := w.again) hw
    have hnone : w.again.call.uncounted = 0 := rfl
    have hall := h.produced
    have hsmall := h.shared.vertexCount_lt
    have hsize : Word.size = 2 ^ 64 := rfl
    omega
  refine h.replace hw hmove.later (hworker.after h.shared hmove) (fun v hv => hmove.backlogs hv)
    hmove.watchful ?_ (hmove.produced hle) rfl fun m hm => hmove.claimed hm
  have hbag := hmove.bag h.shared hworker.fits
  show bag (w.received ++ call'.returned) + call'.pending + c'.stock
    = bag w.received + w.call.pending + crew.shared.stock
  rw [bag_append, add_assoc (bag w.received) w.call.pending, ← hbag]
  abel

/-- A step of a worker begins another call or makes a move. -/
theorem Sound.step_cases (h : crew.Sound) (hw : crew.workers[g]? = some w) (hwrap : crew.wraps g = false) :
    (∃ u, w.call = .finished u ∧ crew.step g = ⟨crew.shared, crew.workers.set g w.again⟩) ∨
      ∃ call' c', Call.Move g crew.shared w.call call' c' ∧
        crew.step g = ⟨c', crew.workers.set g (w.after call')⟩ := by
  have hworker := h.worker g w hw
  have hg : g < crew.shared.layout.workers := h.length ▸ (List.getElem?_eq_some_iff.mp hw).1
  rw [wraps, hw] at hwrap
  cases hover : w.call.isOver with
  | true =>
      obtain ⟨u, hu⟩ := hworker.fits.finished hover
      refine .inl ⟨u, hu, ?_⟩
      simp only [Crew.step, hw, Worker.step_of_finished hu]
  | false =>
      refine .inr ⟨_, _, Call.move_step h.shared hg hworker.fits hover hwrap, ?_⟩
      simp only [Crew.step, hw, Worker.step_of_not_over hover]

/-- A step keeps a crew sound, if no cursor wraps around in it. -/
theorem Sound.step (h : crew.Sound) (hwrap : crew.wraps g = false) : (crew.step g).Sound := by
  cases hw : crew.workers[g]? with
  | none => rwa [Crew.step, hw]
  | some w =>
      rcases h.step_cases hw hwrap with ⟨u, hu, hstep⟩ | ⟨call', c', hmove, hstep⟩
      · exact hstep ▸ h.again hw hu
      · exact hstep ▸ h.move hw hmove

theorem Sound.later (h : crew.Sound) (hwrap : crew.wraps g = false) : crew.shared.Later (crew.step g).shared := by
  cases hw : crew.workers[g]? with
  | none => rw [Crew.step, hw]
  | some w =>
      rcases h.step_cases hw hwrap with ⟨u, -, hstep⟩ | ⟨call', c', hmove, hstep⟩
      · rw [hstep]
      · rw [hstep]
        exact hmove.later

/-- Every run keeps a crew sound in which no cursor wraps around. -/
theorem Sound.run (schedule : List Nat) {crew : Crew} (h : crew.Sound) (hwrap : crew.runWraps schedule = false) :
    (crew.run schedule).Sound ∧ crew.shared.Later (crew.run schedule).shared := by
  induction schedule generalizing crew with
  | nil => exact ⟨h, .refl crew.shared⟩
  | cons g rest ih =>
      obtain ⟨hstep, hrest⟩ := Bool.or_eq_false_iff.mp hwrap
      obtain ⟨hsound, hlater⟩ := ih (h.step hstep) hrest
      exact ⟨hsound, (h.later hstep).trans hlater⟩

end Crew

end PatternCount
