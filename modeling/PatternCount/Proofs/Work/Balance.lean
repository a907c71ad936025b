import PatternCount.Proofs.Work.Moves

/-!
# No vertex is lost

A vertex that is not handed out yet is unclaimed, in a unit that waits (together the `stock`), or in the hands of
a call (`pending`): claimed but not counted, cut but not put away, about to be handed out. A step moves vertices
from one of these to another, or hands out a unit that it returns, and that is all (`Move.bag`).

The counters of claimed and of handed out vertices are behind by what calls have in hand. `Move.produced` and
`Move.claimed` say how they follow; the first cannot wrap around, since it counts vertices of slices, but the
second can, since units may be put into the queue and taken out without end.

`Move.units` is for what all units have in common: if new units have it, then all that wait or are in hand do.
-/

namespace PatternCount

open WorkUnit

/-- The vertices that no call has in hand and no worker has got. -/
def Coordinator.stock (c : Coordinator) : Multiset Nat := bag c.waiting + c.unclaimed

namespace Call

def pending : Call → Multiset Nat
  | countOwn lo hi => span lo hi
  | countStolen _ lo hi => span lo hi
  | relinquish first rest => bag (first :: rest)
  | keep first left => bag (first :: left)
  | handOut u => bag [u]
  | _ => 0

def uncounted : Call → Nat
  | countOwn lo hi => hi - lo
  | countStolen _ lo hi => hi - lo
  | _ => 0

def returned : Call → List WorkUnit
  | finished (some u) => [u]
  | _ => []

def inHand : Call → List WorkUnit
  | relinquish first rest => first :: rest
  | keep first left => first :: left
  | handOut u => [u]
  | finished (some u) => [u]
  | _ => []

/-- The units that the next step of a call of worker `g` makes. -/
def made (g : Nat) (c : Coordinator) : Call → List WorkUnit
  | countOwn lo hi => [⟨lo, hi, g⟩]
  | countStolen victim lo hi => units c.chunkSize lo hi victim
  | _ => []

end Call

namespace Coordinator

variable {c : Coordinator} {g : Nat}

/-! ## The stock -/

theorem stock_of_start {n chunkSize queueCapacity stealBatch : Nat} {layout : Layout}
    (h : start n layout chunkSize queueCapacity stealBatch = .ok c) : c.stock = span 0 n := by
  rw [stock, waiting_of_start h, unclaimed_of_start h]
  exact zero_add _

theorem stock_advance {k : Cursor} (hk : c.cursors[g]? = some k) (amount : Nat) :
    span k.next (min (k.next + amount) k.stop) + (c.advance g k amount).stock = c.stock := by
  rw [stock, stock, add_left_comm, unclaimed_advance hk amount]
  rfl

theorem stock_advance_of_le {k : Cursor} (hk : c.cursors[g]? = some k) (hnext : k.stop ≤ k.next) (amount : Nat) :
    (c.advance g k amount).stock = c.stock := by
  rw [← stock_advance hk amount, span_eq_zero (Nat.le_trans (Nat.min_le_right _ _) hnext), zero_add]

theorem stock_setBacklog {b : Array WorkUnit} (hb : c.backlogs[g]? = some b) (b' : Array WorkUnit) :
    (c.setBacklog g b').stock + bag b.toList = c.stock + bag b'.toList := by
  rw [stock, add_right_comm, bag_waiting_setBacklog hb b', add_right_comm]
  rfl

theorem stock_setQueue (units : List WorkUnit) :
    (c.setQueue units).stock + bag c.queue.units = c.stock + bag units := by
  rw [stock, add_right_comm, bag_waiting_setQueue, add_right_comm]
  rfl

theorem stock_popBacklog {b : Array WorkUnit} {u : WorkUnit} (hb : c.backlogs[g]? = some (b.push u)) :
    bag [u] + (c.setBacklog g b).stock = c.stock := by
  have h := stock_setBacklog hb b
  rw [Array.toList_push, bag_append, add_left_comm, add_comm] at h
  rw [add_comm]
  exact add_right_cancel h

theorem stock_extendBacklog {b : Array WorkUnit} (hb : c.backlogs[g]? = some b) (units : List WorkUnit) :
    (c.setBacklog g (b ++ units.toArray)).stock = c.stock + bag units := by
  have h := stock_setBacklog hb (b ++ units.toArray)
  rw [Array.toList_append, bag_append, add_left_comm, add_comm (bag b.toList)] at h
  exact add_right_cancel h

theorem stock_popQueue {u : WorkUnit} {rest : List WorkUnit} (hq : c.queue.units = u :: rest) :
    bag [u] + (c.setQueue rest).stock = c.stock := by
  have h := stock_setQueue (c := c) rest
  rw [hq, bag_cons, ← bag_singleton, ← add_assoc] at h
  rw [add_comm]
  exact add_right_cancel h

theorem stock_pushQueue (units : List WorkUnit) :
    (c.setQueue (c.queue.units ++ units)).stock = c.stock + bag units := by
  have h := stock_setQueue (c := c) (c.queue.units ++ units)
  rw [bag_append, add_left_comm, add_comm (bag c.queue.units)] at h
  exact add_right_cancel h

end Coordinator

namespace Call

open Coordinator

variable {g : Nat} {c c' : Coordinator} {call call' : Call}

namespace Move

/-- A step moves vertices about, and loses and doubles none. -/
theorem bag (h : Move g c call call' c') (hs : c.Sound) (hf : call.Fits g c) :
    bag call'.returned + call'.pending + c'.stock = call.pending + c.stock := by
  cases h with
  | claimOwn hk | claimFrom hk =>
      simp only [pending, returned, bag_nil, zero_add]
      exact stock_advance hk _
  | ownExhausted hk hnext | missed hk hnext =>
      simp only [pending, returned, bag_nil, zero_add]
      exact stock_advance_of_le hk hnext _
  | countOwn =>
      simp only [pending, returned, bag_nil, zero_add, bag_singleton]
      rfl
  | popBacklog hb =>
      simp only [pending, returned, bag_nil, zero_add]
      exact stock_popBacklog hb
  | popQueue hq | popQueueAgain hq =>
      simp only [pending, returned, bag_nil, zero_add]
      exact stock_popQueue hq
  | @countStolen victim lo hi first rest hunits =>
      have hbag : WorkUnit.bag (first :: rest) = span lo hi :=
        hunits ▸ bag_units hs.chunk_pos (Nat.lt_of_le_of_lt hf.2 hs.vertexCount_lt)
      simp only [pending, returned, bag_nil, zero_add, hbag]
      rfl
  | relinquish =>
      simp only [pending, returned, bag_nil, zero_add, stock_pushQueue, bag_cons, bag_nil, add_zero]
      rw [add_assoc, add_comm c.stock]
  | @overflow first rest =>
      simp only [pending, returned, bag_nil, zero_add, stock_pushQueue, bag_cons]
      nth_rewrite 3 [← List.take_append_drop c.room rest]
      rw [bag_append]
      abel
  | keep hb =>
      simp only [pending, returned, bag_nil, zero_add, stock_extendBacklog hb, bag_cons, bag_nil, add_zero]
      rw [add_assoc, add_comm c.stock]
  | handOut =>
      simp only [pending, returned, add_zero]
      rfl
  | _ => simp only [pending, returned, bag_nil, zero_add]

theorem card_unclaimed_advance {v : Nat} {k : Cursor} (hk : c.cursors[v]? = some k) (amount : Nat) :
    min (k.next + amount) k.stop - k.next + (c.advance v k amount).unclaimed.card = c.unclaimed.card := by
  have h := congrArg Multiset.card (unclaimed_advance hk amount)
  rwa [Multiset.card_add, card_span] at h

theorem card_unclaimed_advance_of_le {v : Nat} {k : Cursor} (hk : c.cursors[v]? = some k)
    (hnext : k.stop ≤ k.next) (amount : Nat) : (c.advance v k amount).unclaimed.card = c.unclaimed.card := by
  rw [← card_unclaimed_advance hk amount,
    Nat.sub_eq_zero_of_le (Nat.le_trans (Nat.min_le_right _ _) hnext), Nat.zero_add]

/-- What has been claimed is counted or about to be counted. -/
theorem produced (h : Move g c call call' c')
    (hfits : c.produced + call.uncounted + c.unclaimed.card < Word.size) :
    c'.produced + call'.uncounted + c'.unclaimed.card = c.produced + call.uncounted + c.unclaimed.card := by
  cases h with
  | claimOwn hk | claimFrom hk =>
      show c.produced + _ + _ = c.produced + 0 + _
      rw [← card_unclaimed_advance hk _, Nat.add_zero, Nat.add_assoc]
      rfl
  | ownExhausted hk hnext | missed hk hnext =>
      show c.produced + 0 + _ = c.produced + 0 + _
      rw [card_unclaimed_advance_of_le hk hnext _]
  | countOwn | countStolen =>
      have hcount := Nat.mod_eq_of_lt (Nat.lt_of_le_of_lt (Nat.le_add_right _ _) hfits)
      exact congrArg (· + c.unclaimed.card) hcount
  | _ => rfl

theorem claimed {m : Nat} (h : Move g c call call' c') (hm : c.claimed = m % Word.size) :
    c'.claimed = (m + volume call'.returned) % Word.size := by
  cases h with
  | @handOut u =>
      show (c.claimed + u.size) % Word.size = (m + (u.size + 0)) % Word.size
      rw [hm, Nat.mod_add_mod, Nat.add_zero]
  | _ => exact hm

end Move

/-! ## What all units have in common -/

section

variable {c : Coordinator} {g : Nat} {u : WorkUnit}

theorem mem_waiting_of_setBacklog {b b' : Array WorkUnit} (hb : c.backlogs[g]? = some b)
    (h : u ∈ (c.setBacklog g b').waiting) : u ∈ b' ∨ u ∈ c.waiting := by
  rcases mem_waiting.mp h with hu | ⟨v, b'', hv, hu⟩
  · exact .inr (mem_waiting.mpr (.inl hu))
  · rw [getElem?_backlogs_setBacklog hb] at hv
    split at hv
    · obtain rfl := Option.some.inj hv
      exact .inl hu
    · exact .inr (mem_waiting.mpr (.inr ⟨v, b'', hv, hu⟩))

theorem mem_waiting_of_setQueue {units : List WorkUnit} (h : u ∈ (c.setQueue units).waiting) :
    u ∈ units ∨ u ∈ c.waiting := by
  rcases mem_waiting.mp h with hu | hu
  · exact .inl hu
  · exact .inr (mem_waiting.mpr (.inr hu))

end

namespace Move

/-- If the units that are made have something in common with all that are in hand or wait, a step keeps it. -/
theorem units {P : WorkUnit → Prop} (h : Move g c call call' c') (hmade : ∀ u ∈ call.made g c, P u)
    (hhand : ∀ u ∈ call.inHand, P u) (hwaiting : ∀ u ∈ c.waiting, P u) :
    (∀ u ∈ call'.inHand, P u) ∧ ∀ u ∈ c'.waiting, P u := by
  cases h with
  | countOwn => exact ⟨hmade, hwaiting⟩
  | @popBacklog b u hb =>
      have hu : ∀ v ∈ b.push u, P v := fun v hv => hwaiting v (mem_waiting.mpr (.inr ⟨g, _, hb, hv⟩))
      refine ⟨List.forall_mem_singleton.mpr (hu u Array.mem_push_self), ?_⟩
      intro v hv
      exact (mem_waiting_of_setBacklog hb hv).elim (fun hv => hu v (Array.mem_push_of_mem u hv)) (hwaiting v)
  | @popQueue u rest hq | @popQueueAgain u rest hq =>
      have hu : ∀ v ∈ u :: rest, P v := fun v hv => hwaiting v (mem_waiting.mpr (.inl (hq ▸ hv)))
      refine ⟨List.forall_mem_singleton.mpr (hu u List.mem_cons_self), ?_⟩
      intro v hv
      exact (mem_waiting_of_setQueue hv).elim (fun hv => hu v (List.mem_cons_of_mem u hv)) (hwaiting v)
  | countStolen hunits =>
      rw [made, hunits] at hmade
      exact ⟨hmade, hwaiting⟩
  | @relinquish first rest =>
      obtain ⟨hfirst, hrest⟩ := List.forall_mem_cons.mp hhand
      refine ⟨List.forall_mem_singleton.mpr hfirst, ?_⟩
      intro v hv
      rcases mem_waiting_of_setQueue hv with hv | hv
      · exact (List.mem_append.mp hv).elim (fun hv => hwaiting v (mem_waiting.mpr (.inl hv))) (hrest v)
      · exact hwaiting v hv
  | @overflow first rest =>
      obtain ⟨hfirst, hrest⟩ := List.forall_mem_cons.mp hhand
      refine ⟨List.forall_mem_cons.mpr ⟨hfirst, fun v hv => hrest v (List.mem_of_mem_drop hv)⟩, ?_⟩
      intro v hv
      rcases mem_waiting_of_setQueue hv with hv | hv
      · exact (List.mem_append.mp hv).elim (fun hv => hwaiting v (mem_waiting.mpr (.inl hv)))
          fun hv => hrest v (List.mem_of_mem_take hv)
      · exact hwaiting v hv
  | @keep first left b hb =>
      obtain ⟨hfirst, hleft⟩ := List.forall_mem_cons.mp hhand
      refine ⟨List.forall_mem_singleton.mpr hfirst, ?_⟩
      intro v hv
      rcases mem_waiting_of_setBacklog hb hv with hv | hv
      · rcases Array.mem_append.mp hv with hv | hv
        · exact hwaiting v (mem_waiting.mpr (.inr ⟨g, b, hb, hv⟩))
        · exact hleft v (List.mem_toArray.mp hv)
      · exact hwaiting v hv
  | handOut => exact ⟨hhand, hwaiting⟩
  | _ => exact ⟨nofun, hwaiting⟩

end Move

end Call

end PatternCount
