import Mathlib.Algebra.Order.BigOperators.Group.List
import Mathlib.Data.Multiset.OrderedMonoid
import PatternCount.Proofs.Work.Calls
import PatternCount.Proofs.Work.Delivery

/-!
# How long a worker is at work

No unit is empty (`Crew.Filled`), so a worker cannot receive more units than there are vertices
(`Crew.Sound.length_received_le`); and a call takes fewer than `Call.maxSteps` steps. What a worker has done since
it began is measured by the units that it is through with and the steps of its last call (`Worker.effort`): every
step of a call and every unit that it gets through adds to that.
-/

namespace PatternCount

open WorkUnit

theorem Call.mem_inHand_of_mem_returned {call : Call} {u : WorkUnit} (h : u ∈ call.returned) :
    u ∈ call.inHand := by
  unfold Call.returned at h
  split at h
  · exact h
  · cases h

namespace Worker

variable {g : Nat} {w : Worker} {c c' : Coordinator} {call' : Call}

/-- What a worker has done: the units before its last call, at so many steps each, and the steps of that call. -/
def effort (most : Nat) (w : Worker) : Nat := (w.received.length - w.call.returned.length) * most + w.steps

theorem effort_after (hmove : Call.Move g c w.call call' c') (most : Nat) :
    (w.after call').effort most = w.effort most + 1 := by
  rw [effort, effort, hmove.returned_eq_nil]
  show ((w.received ++ call'.returned).length - call'.returned.length) * most + (w.steps + 1) = _
  rw [List.length_append, Nat.add_sub_cancel, List.length_nil, Nat.sub_zero, Nat.add_assoc]

theorem lt_effort_again {u : WorkUnit} (hu : w.call = .finished (some u)) (hreceived : 0 < w.received.length)
    {most : Nat} (hsteps : w.steps < most) : w.effort most < w.again.effort most := by
  have hmul : (w.received.length - 1) * most + most = w.received.length * most := by
    rw [← Nat.succ_mul, Nat.succ_eq_add_one, Nat.sub_add_cancel hreceived]
  show (w.received.length - w.call.returned.length) * most + w.steps < (w.received.length - 0) * most + 0
  rw [hu, Nat.sub_zero, Nat.add_zero]
  show (w.received.length - 1) * most + w.steps < _
  omega

end Worker

namespace Crew

/-- Every unit that was received, is in hand or waits has vertices. -/
structure Filled (crew : Crew) : Prop where
  worker : ∀ w ∈ crew.workers, ∀ u ∈ w.received ++ w.call.inHand, u.lo < u.hi
  waiting : ∀ u ∈ crew.shared.waiting, u.lo < u.hi

variable {crew : Crew} {g n chunkSize queueCapacity stealBatch : Nat} {layout : Layout} {c : Coordinator} {w : Worker}

theorem filled_start (hc : Coordinator.start n layout chunkSize queueCapacity stealBatch = .ok c) :
    (start c).Filled where
  worker := fun w hw => by
    obtain rfl := List.eq_of_mem_replicate hw
    nofun
  waiting := by
    show ∀ u ∈ c.waiting, u.lo < u.hi
    rw [Coordinator.waiting_of_start hc]
    nofun

theorem Filled.step (hf : crew.Filled) (h : crew.Sound) (hwrap : crew.wraps g = false) : (crew.step g).Filled := by
  cases hw : crew.workers[g]? with
  | none => rwa [Crew.step, hw]
  | some w =>
      have hworker := hf.worker w (List.mem_of_getElem? hw)
      rcases h.step_cases hw hwrap with ⟨u, -, hstep⟩ | ⟨call', c', hmove, hstep⟩
      · rw [hstep]
        refine ⟨fun w' hw' => ?_, hf.waiting⟩
        rcases List.mem_or_eq_of_mem_set hw' with hw' | rfl
        · exact hf.worker w' hw'
        · exact fun u hu => hworker u (List.mem_append_left _ (List.append_nil w.received ▸ hu))
      · rw [List.forall_mem_append] at hworker
        obtain ⟨hhand, hwaiting⟩ := hmove.units ((h.worker g w hw).fits.made h.shared) hworker.2 hf.waiting
        rw [hstep]
        refine ⟨fun w' hw' => ?_, hwaiting⟩
        rcases List.mem_or_eq_of_mem_set hw' with hw' | rfl
        · exact hf.worker w' hw'
        · rw [List.forall_mem_append]
          refine ⟨?_, hhand⟩
          show ∀ u ∈ w.received ++ call'.returned, u.lo < u.hi
          rw [List.forall_mem_append]
          exact ⟨hworker.1, fun u hu => hhand u (Call.mem_inHand_of_mem_returned hu)⟩

theorem Sound.bag_le (h : crew.Sound) (hw : w ∈ crew.workers) : bag w.received ≤ span 0 crew.shared.vertexCount := by
  refine le_trans ?_ h.bag_received_le
  rw [Crew.bag_received]
  exact List.le_sum_of_mem (List.mem_map_of_mem hw)

theorem Sound.length_received_le (h : crew.Sound) (hf : crew.Filled) (hw : w ∈ crew.workers) :
    w.received.length ≤ crew.shared.vertexCount := by
  have hvolume := length_le_volume fun u hu => hf.worker w hw u (List.mem_append_left _ hu)
  have hcard := Multiset.card_le_card (h.bag_le hw)
  rw [card_bag, card_span, Nat.sub_zero] at hcard
  exact Nat.le_trans hvolume hcard

end Crew

end PatternCount
