import PatternCount.Proofs.Work.Shared

/-!
# One step of a call for work

`Move g c call call' c'` lists what a step of a call of worker `g` can do where no cursor wraps around and the
call holds what it should (`Fits`). It lists every step (`move_step`), so that whatever a step preserves is shown
by going through the list. Two things come first: sizes and slices stay (`Move.later`), and what the call holds
goes on to be what it should (`Move.fits`). A call that fits has not failed.
-/

namespace PatternCount

/-- Whether a move of the cursor of worker `g` goes past the end of the word. -/
def Coordinator.wraps (c : Coordinator) (g amount : Nat) : Bool :=
  match c.cursors[g]? with
  | some k => Word.size ≤ k.next + amount
  | none => false

namespace Call

open Coordinator WorkUnit

def wraps (g : Nat) (call : Call) (c : Coordinator) : Bool :=
  match call with
  | claimOwn => c.wraps g c.chunkSize
  | claimFrom victim amount => c.wraps victim amount
  | _ => false

/-- What a call of worker `g` can hold. -/
def Fits (g : Nat) (c : Coordinator) : Call → Prop
  | countOwn lo hi => lo < hi ∧ hi ≤ c.vertexCount
  | countStolen _ lo hi => lo < hi ∧ hi ≤ c.vertexCount
  | popBacklog => c.chunkSize < Word.size
  | popQueue => c.chunkSize < Word.size
  | scan peer best => c.chunkSize < Word.size ∧ peer ≤ c.layout.workers ∧
      ∀ victim r, best = some (victim, r) → victim < c.layout.workers ∧ victim ≠ g ∧ r ≤ c.vertexCount
  | claimFrom victim amount => c.chunkSize < Word.size ∧ victim < c.layout.workers ∧ victim ≠ g ∧ 0 < amount
  | failed _ => False
  | _ => True

/-- What a step of a call of worker `g` can do. -/
inductive Move (g : Nat) (c : Coordinator) : Call → Call → Coordinator → Prop where
  | claimOwn {k : Cursor} (hk : c.cursors[g]? = some k) (hnext : k.next < k.stop) :
      Move g c .claimOwn (.countOwn k.next (min (k.next + c.chunkSize) k.stop)) (c.advance g k c.chunkSize)
  | ownExhausted {k : Cursor} (hk : c.cursors[g]? = some k) (hnext : k.stop ≤ k.next)
      (hwrap : k.next + c.chunkSize < Word.size) :
      Move g c .claimOwn .popBacklog (c.advance g k c.chunkSize)
  | countOwn {lo hi : Nat} : Move g c (.countOwn lo hi) (.handOut ⟨lo, hi, g⟩) (c.addProduced (hi - lo))
  | popBacklog {b : Array WorkUnit} {u : WorkUnit} (hb : c.backlogs[g]? = some (b.push u)) :
      Move g c .popBacklog (.handOut u) (c.setBacklog g b)
  | backlogEmpty (hb : c.backlogs[g]? = some #[]) : Move g c .popBacklog .popQueue c
  | popQueue {u : WorkUnit} {rest : List WorkUnit} (hq : c.queue.units = u :: rest) :
      Move g c .popQueue (.handOut u) (c.setQueue rest)
  | queueEmpty (hq : c.queue.units = []) : Move g c .popQueue (.scan 0 none) c
  | scanSelf {best : Option (Nat × Nat)} (hg : g < c.layout.workers) : Move g c (.scan g best) (.scan (g + 1) best) c
  | scan {peer : Nat} {best : Option (Nat × Nat)} (hpeer : peer < c.layout.workers) (hne : peer ≠ g) :
      Move g c (.scan peer best) (.scan (peer + 1) (better best peer (c.remaining peer))) c
  | alone {peer : Nat} (hpeer : c.layout.workers ≤ peer) : Move g c (.scan peer none) (.finished none) c
  | allExhausted {peer victim : Nat} (hpeer : c.layout.workers ≤ peer) :
      Move g c (.scan peer (some (victim, 0))) .popQueueAgain c
  | choose {peer victim r : Nat} (hpeer : c.layout.workers ≤ peer) (hr : 0 < r) :
      Move g c (.scan peer (some (victim, r)))
        (.claimFrom victim (chunksToSteal r c.chunkSize c.stealBatch * c.chunkSize)) c
  | popQueueAgain {u : WorkUnit} {rest : List WorkUnit} (hq : c.queue.units = u :: rest) :
      Move g c .popQueueAgain (.handOut u) (c.setQueue rest)
  | giveUp (hq : c.queue.units = []) : Move g c .popQueueAgain (.finished none) c
  | claimFrom {victim amount : Nat} {k : Cursor} (hk : c.cursors[victim]? = some k) (hnext : k.next < k.stop) :
      Move g c (.claimFrom victim amount) (.countStolen victim k.next (min (k.next + amount) k.stop))
        (c.advance victim k amount)
  | missed {victim amount : Nat} {k : Cursor} (hk : c.cursors[victim]? = some k) (hnext : k.stop ≤ k.next) :
      Move g c (.claimFrom victim amount) (.scan 0 none) (c.advance victim k amount)
  | countStolen {victim lo hi : Nat} {first : WorkUnit} {rest : List WorkUnit}
      (hunits : units c.chunkSize lo hi victim = first :: rest) :
      Move g c (.countStolen victim lo hi) (.relinquish first rest) (c.addProduced (hi - lo))
  | relinquish {first : WorkUnit} {rest : List WorkUnit} (hroom : rest.length ≤ c.room) :
      Move g c (.relinquish first rest) (.handOut first) (c.setQueue (c.queue.units ++ rest))
  | overflow {first : WorkUnit} {rest : List WorkUnit} (hroom : c.room < rest.length) :
      Move g c (.relinquish first rest) (.keep first (rest.drop c.room))
        (c.setQueue (c.queue.units ++ rest.take c.room))
  | keep {first : WorkUnit} {left : List WorkUnit} {b : Array WorkUnit} (hb : c.backlogs[g]? = some b) :
      Move g c (.keep first left) (.handOut first) (c.setBacklog g (b ++ left.toArray))
  | handOut {u : WorkUnit} : Move g c (.handOut u) (.finished (some u)) (c.addClaimed u.size)

section

variable {g : Nat} {c c' : Coordinator} {call call' : Call}

theorem Fits.later (hf : call.Fits g c) (h : c.Later c') : call.Fits g c' := by
  unfold Fits at *
  rw [h.vertexCount, h.layout, h.chunkSize]
  exact hf

theorem Fits.finished (hf : call.Fits g c) (hover : call.isOver = true) : ∃ u, call = .finished u := by
  cases call with
  | finished u => exact ⟨u, rfl⟩
  | failed f => exact hf.elim
  | _ => cases hover

theorem not_wraps {amount : Nat} {k : Cursor} (hk : c.cursors[g]? = some k) (h : c.wraps g amount = false) :
    k.next + amount < Word.size := by
  rw [Coordinator.wraps, hk] at h
  exact Nat.lt_of_not_le (of_decide_eq_false h)

theorem move_scan (hs : c.Sound) (hg : g < c.layout.workers) {peer : Nat} {best : Option (Nat × Nat)}
    (hf : (scan peer best).Fits g c) :
    Move g c (scan peer best) ((scan peer best).step g c).1 ((scan peer best).step g c).2 := by
  rw [step, hs.cursors_size]
  rcases Nat.lt_or_ge peer c.layout.workers with hpeer | hpeer
  · rw [if_pos hpeer]
    by_cases hself : peer = g
    · subst hself
      rw [if_pos rfl]
      exact .scanSelf hg
    · rw [if_neg hself]
      exact .scan hpeer hself
  · rw [if_neg (Nat.not_lt.mpr hpeer)]
    rcases best with _ | ⟨victim, _ | r⟩
    · exact .alone hpeer
    · exact .allExhausted hpeer
    · have hr := (hf.2.2 victim _ rfl).2.2
      have hmul := chunksToSteal_mul_lt c.stealBatch hs.chunk_pos hf.1 r.succ_pos
        (Nat.lt_of_le_of_lt hr hs.vertexCount_lt)
      simp only [afterScan, Word.checkedMul, if_pos hmul]
      exact .choose hpeer r.succ_pos

theorem move_relinquish (first : WorkUnit) (rest : List WorkUnit) :
    Move g c (relinquish first rest) ((relinquish first rest).step g c).1
      ((relinquish first rest).step g c).2 := by
  rw [step, pushQueue_eq]
  rcases Nat.lt_or_ge c.room rest.length with hroom | hroom
  · obtain ⟨u, left, hleft⟩ := List.exists_cons_of_ne_nil
      (List.ne_nil_of_length_pos (l := rest.drop c.room) (by rw [List.length_drop]; omega))
    have hmove : Move g c (relinquish first rest) _ _ := .overflow hroom
    rw [hleft] at hmove ⊢
    exact hmove
  · rw [List.drop_of_length_le hroom, List.take_of_length_le hroom]
    exact .relinquish hroom

/-- Every step of a call is one of the listed moves. -/
theorem move_step (hs : c.Sound) (hg : g < c.layout.workers) (hf : call.Fits g c) (hover : call.isOver = false)
    (hwrap : call.wraps g c = false) : Move g c call (call.step g c).1 (call.step g c).2 := by
  cases call with
  | claimOwn =>
      obtain ⟨k, hk⟩ := hs.cursor hg
      have hwrap := not_wraps hk hwrap
      rcases Nat.lt_or_ge k.next k.stop with hnext | hnext
      · rw [step, claim_of_lt hk hnext hwrap]
        exact .claimOwn hk hnext
      · rw [step, claim_of_le hk hnext hwrap]
        exact .ownExhausted hk hnext hwrap
  | countOwn lo hi =>
      obtain ⟨hlo, hhi⟩ := hf
      have hhi := Nat.lt_of_le_of_lt hhi hs.vertexCount_lt
      rw [step, unitOf_eq (Nat.lt_trans hlo hhi) hhi]
      exact .countOwn
  | popBacklog =>
      obtain ⟨b, hb⟩ := hs.backlog hg
      by_cases hempty : b = #[]
      · subst hempty
        rw [step, popBacklog_empty hb]
        exact .backlogEmpty hb
      · obtain ⟨b, u, rfl⟩ := Array.exists_push_of_ne_empty hempty
        rw [step, popBacklog_push hb]
        exact .popBacklog hb
  | popQueue =>
      cases hq : c.queue.units with
      | nil =>
          rw [step, popQueue_nil hq]
          exact .queueEmpty hq
      | cons u rest =>
          rw [step, popQueue_cons hq]
          exact .popQueue hq
  | scan peer best => exact move_scan hs hg hf
  | popQueueAgain =>
      cases hq : c.queue.units with
      | nil =>
          rw [step, popQueue_nil hq]
          exact .giveUp hq
      | cons u rest =>
          rw [step, popQueue_cons hq]
          exact .popQueueAgain hq
  | claimFrom victim amount =>
      obtain ⟨k, hk⟩ := hs.cursor hf.2.1
      have hwrap := not_wraps hk hwrap
      rcases Nat.lt_or_ge k.next k.stop with hnext | hnext
      · rw [step, claim_of_lt hk hnext hwrap]
        exact .claimFrom hk hnext
      · rw [step, claim_of_le hk hnext hwrap]
        exact .missed hk hnext
  | countStolen victim lo hi =>
      cases hunits : units c.chunkSize lo hi victim with
      | nil => exact absurd hunits (units_ne_nil hs.chunk_pos hf.1)
      | cons first rest =>
          rw [step, hunits]
          exact .countStolen hunits
  | relinquish first rest => exact move_relinquish first rest
  | keep first left =>
      obtain ⟨b, hb⟩ := hs.backlog hg
      rw [step, extendBacklog_eq hb]
      exact .keep hb
  | handOut u => exact .handOut
  | finished u => cases hover
  | failed f => cases hover

namespace Move

/-! ## What stays in place -/

theorem later (h : Move g c call call' c') : c.Later c' := by
  cases h with
  | claimOwn hk | ownExhausted hk | claimFrom hk | missed hk => exact later_advance hk
  | countOwn | countStolen => exact later_addProduced
  | popBacklog | keep => exact later_setBacklog
  | popQueue | popQueueAgain | relinquish | overflow => exact later_setQueue
  | handOut => exact later_addClaimed
  | _ => exact .refl c

theorem fits (h : Move g c call call' c') (hs : c.Sound) (hf : call.Fits g c) : call'.Fits g c' := by
  refine Fits.later ?_ h.later
  cases h with
  | claimOwn hk hnext =>
      refine ⟨Nat.lt_min.mpr ⟨Nat.lt_add_of_pos_right hs.chunk_pos, hnext⟩, ?_⟩
      exact Nat.le_trans (Nat.min_le_right _ _) (hs.stop_le g _ hk)
  | ownExhausted _ _ hwrap => exact Nat.lt_of_le_of_lt (Nat.le_add_left _ _) hwrap
  | backlogEmpty => exact hf
  | queueEmpty => exact ⟨hf, Nat.zero_le _, nofun⟩
  | scanSelf hg => exact ⟨hf.1, hg, hf.2.2⟩
  | @scan peer best hpeer hne =>
      refine ⟨hf.1, hpeer, ?_⟩
      intro victim r hbest
      rcases best with _ | ⟨victim', most⟩
      · obtain ⟨rfl, rfl⟩ := Prod.mk.inj (Option.some.inj hbest)
        exact ⟨hpeer, hne, hs.remaining_le peer⟩
      · rw [better] at hbest
        split at hbest
        · obtain ⟨rfl, rfl⟩ := Prod.mk.inj (Option.some.inj hbest)
          exact ⟨hpeer, hne, hs.remaining_le peer⟩
        · exact hf.2.2 victim r hbest
  | choose =>
      obtain ⟨hvictim, hne, -⟩ := hf.2.2 _ _ rfl
      exact ⟨hf.1, hvictim, hne, Nat.mul_pos (chunksToSteal_pos _ _ hs.batch_pos) hs.chunk_pos⟩
  | claimFrom hk hnext =>
      refine ⟨Nat.lt_min.mpr ⟨Nat.lt_add_of_pos_right hf.2.2.2, hnext⟩, ?_⟩
      exact Nat.le_trans (Nat.min_le_right _ _) (hs.stop_le _ _ hk)
  | missed => exact ⟨hf.1, Nat.zero_le _, nofun⟩
  | _ => trivial

end Move

end

end Call

end PatternCount
