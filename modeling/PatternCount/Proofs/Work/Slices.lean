import PatternCount.Proofs.Work.Effort
import PatternCount.Proofs.Work.Service

/-!
# Units lie in slices

Cursors never leave their slices (`Coordinator.Aligned`): they start at the beginning, and only move on. So a range
that a call claims lies in the slice of one worker, and so do the units made of it (`Call.Ranges.made`). A unit bears
the number of that worker, whoever takes it, and wherever it waits in between: `Call.Move.sliced` says so of a step,
`Service.Sliced.run` of a sequence of requests in which no units come from outside, and `Crew.Sliced.run` of calls
whose steps are interleaved in any way.
-/

namespace PatternCount

open WorkUnit Coordinator

section

variable (n chunkSize : Nat) (layout : Layout)

/-- A unit holds some vertices, at most a chunk, out of the slice of its owner. -/
structure WorkUnit.InSlice (u : WorkUnit) : Prop where
  lo_lt_hi : u.lo < u.hi
  size_le : u.size ≤ chunkSize
  owner_lt : u.owner < layout.workers
  start_le : (staticSplit n layout u.owner).1 ≤ u.lo
  le_stop : u.hi ≤ (staticSplit n layout u.owner).2

/-- No cursor stands before the slice of its worker, and each is bounded by the end of that slice. -/
structure Coordinator.Aligned (c : Coordinator) : Prop where
  cursor : ∀ (v : Nat) k, c.cursors[v]? = some k →
    (staticSplit n layout v).1 ≤ k.next ∧ k.stop = (staticSplit n layout v).2
  chunkSize : c.chunkSize = chunkSize
  layout : c.layout = layout

/-- The range that a call of worker `g` has claimed lies in a slice; of its own it claims no more than a chunk. -/
def Call.Ranges (g : Nat) : Call → Prop
  | countOwn lo hi => (staticSplit n layout g).1 ≤ lo ∧ hi ≤ (staticSplit n layout g).2 ∧ hi - lo ≤ chunkSize
  | countStolen victim lo hi =>
      victim < layout.workers ∧ (staticSplit n layout victim).1 ≤ lo ∧ hi ≤ (staticSplit n layout victim).2
  | _ => True

/-- All units that a call has in hand, or that wait, lie in slices, and so will those that are made. -/
structure Call.Sliced (g : Nat) (call : Call) (c : Coordinator) : Prop where
  aligned : c.Aligned n chunkSize layout
  ranges : call.Ranges n chunkSize layout g
  inHand : ∀ u ∈ call.inHand, u.InSlice n chunkSize layout
  waiting : ∀ u ∈ c.waiting, u.InSlice n chunkSize layout

end

variable {n chunkSize queueCapacity stealBatch g : Nat} {layout : Layout} {c c' : Coordinator} {call call' : Call}

namespace Coordinator

theorem Aligned.later (ha : c.Aligned n chunkSize layout) (h : c.Later c') : c'.Aligned n chunkSize layout where
  cursor := fun v k' hk' => by
    obtain ⟨k, hk, hstop, hnext⟩ := h.cursor v k' hk'
    obtain ⟨hle, hend⟩ := ha.cursor v k hk
    exact ⟨Nat.le_trans hle hnext, hstop.trans hend⟩
  chunkSize := h.chunkSize.trans ha.chunkSize
  layout := h.layout.trans ha.layout

theorem aligned_of_start (h : start n layout chunkSize queueCapacity stealBatch = .ok c) :
    c.Aligned n chunkSize layout := by
  obtain ⟨-, -, -, rfl⟩ := start_eq_ok h
  refine ⟨fun v k hk => ?_, rfl, rfl⟩
  rw [Array.getElem?_map] at hk
  obtain ⟨w, hw, rfl⟩ := Option.map_eq_some_iff.mp hk
  obtain ⟨hlt, rfl⟩ := Array.getElem?_eq_some_iff.mp hw
  rw [Array.getElem_range]
  exact ⟨Nat.le_refl _, rfl⟩

end Coordinator

/-! ## Single calls -/

namespace Call

/-- Units that are made of a range in a slice lie in that slice. -/
theorem Ranges.made (hr : call.Ranges n chunkSize layout g) (hs : c.Sound) (ha : c.Aligned n chunkSize layout)
    (hg : g < layout.workers) (hf : call.Fits g c) : ∀ u ∈ call.made g c, u.InSlice n chunkSize layout := by
  cases call with
  | countOwn lo hi =>
      obtain ⟨hstart, hstop, hsize⟩ := hr
      exact List.forall_mem_singleton.mpr ⟨hf.1, hsize, hg, hstart, hstop⟩
  | countStolen victim lo hi =>
      obtain ⟨hvictim, hstart, hstop⟩ := hr
      intro u hu
      obtain ⟨rfl, hlo, hne, hhi, hsize⟩ :=
        bounds_of_mem_units hs.chunk_pos (Nat.lt_of_le_of_lt hf.2 hs.vertexCount_lt) u hu
      exact ⟨hne, ha.chunkSize ▸ hsize, hvictim, Nat.le_trans hstart hlo, Nat.le_trans hhi hstop⟩
  | _ => nofun

theorem Move.ranges (h : Move g c call call' c') (ha : c.Aligned n chunkSize layout) (hf : call.Fits g c) :
    call'.Ranges n chunkSize layout g := by
  cases h with
  | claimOwn hk =>
      obtain ⟨hstart, hstop⟩ := ha.cursor g _ hk
      refine ⟨hstart, hstop ▸ Nat.min_le_right _ _, Nat.sub_le_of_le_add ?_⟩
      rw [Nat.add_comm chunkSize, ← ha.chunkSize]
      exact Nat.min_le_left _ _
  | @claimFrom victim amount k hk =>
      obtain ⟨hstart, hstop⟩ := ha.cursor victim k hk
      exact ⟨ha.layout ▸ hf.2.1, hstart, hstop ▸ Nat.min_le_right _ _⟩
  | _ => trivial

/-- A step of a call keeps units in their slices. -/
theorem Move.sliced (h : Move g c call call' c') (hs : c.Sound) (hg : g < layout.workers) (hf : call.Fits g c)
    (hc : call.Sliced n chunkSize layout g c) : call'.Sliced n chunkSize layout g c' := by
  obtain ⟨hhand, hwaiting⟩ := h.units (hc.ranges.made hs hc.aligned hg hf) hc.inHand hc.waiting
  exact ⟨hc.aligned.later h.later, h.ranges hc.aligned hf, hhand, hwaiting⟩

end Call

theorem Coordinator.complete_sliced (hs : c.Sound) (hg : g < c.layout.workers) (hf : call.Fits g c)
    (htarget : call.target = none) (hc : call.Sliced n chunkSize layout g c)
    (hwrap : Call.runWraps g (Call.maxSteps c.cursors.size) call c = false) :
    ∃ u c', c.complete g call = (.ok u, c') ∧ c.Later c' ∧ (∀ v ∈ u.toList, v.InSlice n chunkSize layout) ∧
      ∀ v ∈ c'.waiting, v.InSlice n chunkSize layout := by
  have hworkers : g < layout.workers := hc.aligned.layout ▸ hg
  obtain ⟨u, c', hcomplete, hlater, hc'⟩ := complete_eq_ok (Q := Call.Sliced n chunkSize layout g)
    (fun hs hf hc hmove => hmove.sliced hs hworkers hf hc) hs hg hf htarget hc hwrap
  have hhand : Call.inHand (.finished u) = u.toList := by cases u <;> rfl
  exact ⟨u, c', hcomplete, hlater, hhand ▸ hc'.inHand, hc'.waiting⟩

/-! ## Sequences of calls -/

namespace Service

variable {s : Service} {r : Request} {c₀ : Coordinator}

/-- Since `c₀`, all units that have been handed out, or that wait, have been made of slices. -/
structure Sliced (n chunkSize : Nat) (layout : Layout) (c₀ : Coordinator) (s : Service) : Prop where
  handed : ∀ u ∈ s.handed, u.InSlice n chunkSize layout
  waiting : ∀ u ∈ s.shared.waiting, u.InSlice n chunkSize layout
  later : c₀.Later s.shared

theorem sliced_start (hc : Coordinator.start n layout chunkSize queueCapacity stealBatch = .ok c) :
    (start c).Sliced n chunkSize layout c := by
  refine ⟨nofun, fun u hu => ?_, .refl c⟩
  have hu : u ∈ c.waiting := hu
  rw [waiting_of_start hc] at hu
  cases hu

theorem Sliced.complete (h : s.Sliced n chunkSize layout c₀) (ha : c₀.Aligned n chunkSize layout)
    (hs : s.shared.Sound) (hg : g < s.shared.layout.workers) (hf : call.Fits g s.shared)
    (htarget : call.target = none) (hranges : call.Ranges n chunkSize layout g) (hhand : call.inHand = [])
    (hwrap : Call.runWraps g (Call.maxSteps s.shared.cursors.size) call s.shared = false) :
    (s.answered (s.shared.complete g call)).Sliced n chunkSize layout c₀ := by
  obtain ⟨u, c', heq, hlater, hu, hwaiting⟩ := complete_sliced hs hg hf htarget
    ⟨ha.later h.later, hranges, by rw [hhand]; nofun, h.waiting⟩ hwrap
  rw [heq]
  exact ⟨List.forall_mem_append.mpr ⟨h.handed, hu⟩, hwaiting, h.later.trans hlater⟩

/-- A request keeps units in their slices, unless it brings units from outside. -/
theorem Sliced.serve (h : s.Sliced n chunkSize layout c₀) (ha : c₀.Aligned n chunkSize layout)
    (hs : s.shared.Sound) (hr : ∀ units, r ≠ .setLoop units) (hwrap : s.wraps r = false) :
    (s.serve r).Sliced n chunkSize layout c₀ := by
  cases r with
  | getLoop rank worker =>
      rw [Service.serve, Coordinator.getLoop]
      cases hg : s.shared.globalWorker rank worker with
      | error f => exact h
      | ok g =>
          rw [wraps, hg] at hwrap
          exact h.complete ha hs (globalWorker_lt hg) (show Call.claimOwn.Fits g s.shared from trivial) rfl trivial
            rfl hwrap
  | frontAndPop =>
      exact h.complete ha hs hs.workers_pos (show Call.popQueueAgain.Fits 0 s.shared from trivial) rfl trivial rfl
        hwrap
  | setLoop units => exact absurd rfl (hr units)

theorem Sliced.run (ha : c₀.Aligned n chunkSize layout) (requests : List Request) {s : Service}
    (h : s.Sliced n chunkSize layout c₀) (hs : s.Sound n)
    (hrequests : ∀ r ∈ requests, ∀ units, r ≠ .setLoop units) (hwrap : s.runWraps requests = false) :
    (s.run requests).Sliced n chunkSize layout c₀ := by
  induction requests generalizing s with
  | nil => exact h
  | cons r rest ih =>
      obtain ⟨hr, hrequests⟩ := List.forall_mem_cons.mp hrequests
      obtain ⟨hserve, hrest⟩ := Bool.or_eq_false_iff.mp hwrap
      exact ih (h.serve ha hs.shared hr hserve) (hs.serve hserve) hrequests hrest

end Service

/-! ## Calls that are interleaved -/

namespace Crew

variable {crew : Crew}

/-- All units that the workers have received or have in hand, or that wait, lie in slices, and so will those that
are made. -/
structure Sliced (n chunkSize : Nat) (layout : Layout) (crew : Crew) : Prop where
  aligned : crew.shared.Aligned n chunkSize layout
  ranges : ∀ (g : Nat) w, crew.workers[g]? = some w → w.call.Ranges n chunkSize layout g
  worker : ∀ w ∈ crew.workers, ∀ u ∈ w.received ++ w.call.inHand, u.InSlice n chunkSize layout
  waiting : ∀ u ∈ crew.shared.waiting, u.InSlice n chunkSize layout

theorem sliced_start (hc : Coordinator.start n layout chunkSize queueCapacity stealBatch = .ok c) :
    (start c).Sliced n chunkSize layout where
  aligned := aligned_of_start hc
  ranges := fun g w hw => by
    obtain rfl := List.eq_of_mem_replicate (List.mem_of_getElem? hw)
    trivial
  worker := fun w hw => by
    obtain rfl := List.eq_of_mem_replicate hw
    nofun
  waiting := by
    show ∀ u ∈ c.waiting, u.InSlice n chunkSize layout
    rw [waiting_of_start hc]
    nofun

/-- Replacing a worker and the shared state keeps units in their slices, if all that is new is in slices. -/
theorem Sliced.replace (h : crew.Sliced n chunkSize layout) {w : Worker}
    (hw : w.call.Sliced n chunkSize layout g c') (hreceived : ∀ u ∈ w.received, u.InSlice n chunkSize layout) :
    (Crew.mk c' (crew.workers.set g w)).Sliced n chunkSize layout where
  aligned := hw.aligned
  ranges := fun v w₀ hv => by
    rw [List.getElem?_set] at hv
    split at hv
    · next heq =>
        obtain ⟨-, hv⟩ := Option.ite_none_right_eq_some.mp hv
        obtain rfl := Option.some.inj hv
        exact heq ▸ hw.ranges
    · exact h.ranges v w₀ hv
  worker := fun w₀ hw₀ => by
    rcases List.mem_or_eq_of_mem_set hw₀ with hw₀ | rfl
    · exact h.worker w₀ hw₀
    · exact List.forall_mem_append.mpr ⟨hreceived, hw.inHand⟩
  waiting := hw.waiting

/-- A step of a worker keeps units in their slices. -/
theorem Sliced.step (h : crew.Sliced n chunkSize layout) (hs : crew.Sound) (hwrap : crew.wraps g = false) :
    (crew.step g).Sliced n chunkSize layout := by
  cases hw : crew.workers[g]? with
  | none => rwa [Crew.step, hw]
  | some w =>
      obtain ⟨hreceived, hhand⟩ := List.forall_mem_append.mp (h.worker w (List.mem_of_getElem? hw))
      rcases hs.step_cases hw hwrap with ⟨u, -, hstep⟩ | ⟨call', c', hmove, hstep⟩
      · rw [hstep]
        exact h.replace ⟨h.aligned, trivial, List.forall_mem_nil _, h.waiting⟩ hreceived
      · have hg : g < layout.workers := by
          rw [← h.aligned.layout, ← hs.length]
          exact (List.getElem?_eq_some_iff.mp hw).1
        have hcall := hmove.sliced hs.shared hg (hs.worker g w hw).fits ⟨h.aligned, h.ranges g w hw, hhand, h.waiting⟩
        rw [hstep]
        refine h.replace hcall (List.forall_mem_append.mpr ⟨hreceived, fun u hu => ?_⟩)
        exact hcall.inHand u (Call.mem_inHand_of_mem_returned hu)

theorem Sliced.run (schedule : List Nat) {crew : Crew} (h : crew.Sliced n chunkSize layout) (hs : crew.Sound)
    (hwrap : crew.runWraps schedule = false) : (crew.run schedule).Sliced n chunkSize layout := by
  induction schedule generalizing crew with
  | nil => exact h
  | cons g rest ih =>
      obtain ⟨hstep, hrest⟩ := Bool.or_eq_false_iff.mp hwrap
      exact ih (h.step hs hstep) (hs.step hstep) hrest

theorem Sliced.received (h : crew.Sliced n chunkSize layout) : ∀ u ∈ crew.received, u.InSlice n chunkSize layout := by
  intro u hu
  obtain ⟨w, hw, hu⟩ := List.mem_flatMap.mp hu
  exact h.worker w hw u (List.mem_append_left _ hu)

end Crew

end PatternCount
