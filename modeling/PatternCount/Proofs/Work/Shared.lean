import PatternCount.Proofs.Outcome
import PatternCount.Proofs.Work.Units

/-!
# The shared state of a run

What the operations on a `Coordinator` do to the vertices in it. A vertex is in the unclaimed rest of a slice
(`unclaimed`) or in a unit that waits in the queue or in a backlog (`waiting`). Each operation is rewritten to
the one field that it changes (`claim_of_lt`, `popBacklog_push`, `popQueue_cons`, ...), and beside it stands
what that change does to the two.

`Sound` says what never changes: sizes are positive, there is a cursor and a backlog for each worker, and no
slice ends behind the last vertex. `Later c c'` says that `c'` comes from `c` by moves of cursors and changes of
what waits; sound coordinators stay sound (`Sound.later`), and slices only get shorter (`Later.remaining_le`).
At the start the slices tile the vertices (`unclaimed_of_start`).
-/

namespace PatternCount.Coordinator

open WorkUnit

def unclaimed (c : Coordinator) : Multiset Nat := (c.cursors.toList.map fun k => span k.next k.stop).sum

def waiting (c : Coordinator) : List WorkUnit := c.queue.units ++ c.backlogs.toList.flatMap Array.toList

/-- Chunks and batches have a size, and the vertices of all slices are vertex numbers. -/
structure Sound (c : Coordinator) : Prop where
  chunk_pos : 0 < c.chunkSize
  batch_pos : 0 < c.stealBatch
  workers_pos : 0 < c.layout.workers
  cursors_size : c.cursors.size = c.layout.workers
  backlogs_size : c.backlogs.size = c.layout.workers
  stop_le : ∀ (g : Nat) k, c.cursors[g]? = some k → k.stop ≤ c.vertexCount
  vertexCount_lt : c.vertexCount < 2 ^ 32

/-- `c'` differs from `c` in what has been claimed, waits and has been counted. -/
structure Later (c c' : Coordinator) : Prop where
  vertexCount : c'.vertexCount = c.vertexCount
  layout : c'.layout = c.layout
  chunkSize : c'.chunkSize = c.chunkSize
  stealBatch : c'.stealBatch = c.stealBatch
  cursors_size : c'.cursors.size = c.cursors.size
  backlogs_size : c'.backlogs.size = c.backlogs.size
  cursor : ∀ (g : Nat) k', c'.cursors[g]? = some k' →
    ∃ k, c.cursors[g]? = some k ∧ k'.stop = k.stop ∧ k.next ≤ k'.next

section

variable {c c' c'' : Coordinator} {g : Nat} {k : Cursor}

@[refl] theorem Later.refl (c : Coordinator) : c.Later c where
  vertexCount := rfl
  layout := rfl
  chunkSize := rfl
  stealBatch := rfl
  cursors_size := rfl
  backlogs_size := rfl
  cursor := fun _ k hk => ⟨k, hk, rfl, Nat.le_refl _⟩

theorem Later.trans (h : c.Later c') (h' : c'.Later c'') : c.Later c'' where
  vertexCount := h'.vertexCount.trans h.vertexCount
  layout := h'.layout.trans h.layout
  chunkSize := h'.chunkSize.trans h.chunkSize
  stealBatch := h'.stealBatch.trans h.stealBatch
  cursors_size := h'.cursors_size.trans h.cursors_size
  backlogs_size := h'.backlogs_size.trans h.backlogs_size
  cursor := fun g k'' hk'' => by
    obtain ⟨k', hk', hstop', hnext'⟩ := h'.cursor g k'' hk''
    obtain ⟨k, hk, hstop, hnext⟩ := h.cursor g k' hk'
    exact ⟨k, hk, hstop'.trans hstop, Nat.le_trans hnext hnext'⟩

theorem Sound.later (hs : c.Sound) (h : c.Later c') : c'.Sound where
  chunk_pos := h.chunkSize ▸ hs.chunk_pos
  batch_pos := h.stealBatch ▸ hs.batch_pos
  workers_pos := h.layout ▸ hs.workers_pos
  cursors_size := by rw [h.cursors_size, hs.cursors_size, h.layout]
  backlogs_size := by rw [h.backlogs_size, hs.backlogs_size, h.layout]
  stop_le := fun g k' hk' => by
    obtain ⟨k, hk, hstop, -⟩ := h.cursor g k' hk'
    rw [hstop, h.vertexCount]
    exact hs.stop_le g k hk
  vertexCount_lt := h.vertexCount ▸ hs.vertexCount_lt

theorem remaining_eq (hk : c.cursors[g]? = some k) : c.remaining g = k.remaining := by
  rw [remaining, hk]

theorem Later.remaining_le (h : c.Later c') (v : Nat) : c'.remaining v ≤ c.remaining v := by
  cases hk' : c'.cursors[v]? with
  | none =>
      rw [remaining, hk']
      exact Nat.zero_le _
  | some k' =>
      obtain ⟨k, hk, hstop, hnext⟩ := h.cursor v k' hk'
      rw [remaining_eq hk', remaining_eq hk, Cursor.remaining, Cursor.remaining, hstop]
      exact Nat.sub_le_sub_left hnext _

theorem Sound.cursor (hs : c.Sound) (hg : g < c.layout.workers) : ∃ k, c.cursors[g]? = some k :=
  ⟨_, Array.getElem?_eq_getElem (hs.cursors_size ▸ hg)⟩

theorem Sound.backlog (hs : c.Sound) (hg : g < c.layout.workers) : ∃ b, c.backlogs[g]? = some b :=
  ⟨_, Array.getElem?_eq_getElem (hs.backlogs_size ▸ hg)⟩

theorem Sound.remaining_eq_zero (hs : c.Sound) (hg : c.layout.workers ≤ g) : c.remaining g = 0 := by
  rw [remaining, Array.getElem?_eq_none (hs.cursors_size ▸ hg)]

theorem Sound.remaining_le (hs : c.Sound) (g : Nat) : c.remaining g ≤ c.vertexCount := by
  cases hk : c.cursors[g]? with
  | none =>
      rw [remaining, hk]
      exact Nat.zero_le _
  | some k =>
      rw [remaining_eq hk]
      exact Nat.le_trans (Nat.sub_le _ _) (hs.stop_le g k hk)

theorem globalWorker_eq_ok {rank worker : Nat} : c.globalWorker rank worker = .ok g ↔
    rank < c.layout.ranks ∧ worker < c.layout.threadsPerRank ∧ rank * c.layout.threadsPerRank + worker = g := by
  unfold globalWorker
  split
  · next hrank => exact iff_of_false nofun fun h => Nat.not_lt_of_le hrank h.1
  · next hrank =>
      split
      · next hworker => exact iff_of_false nofun fun h => Nat.not_lt_of_le hworker h.2.1
      · next hworker =>
          rw [Except.ok.injEq]
          exact ⟨fun h => ⟨Nat.lt_of_not_le hrank, Nat.lt_of_not_le hworker, h⟩, fun h => h.2.2⟩

theorem Later.globalWorker (h : c.Later c') {rank worker : Nat} :
    c'.globalWorker rank worker = c.globalWorker rank worker := by
  rw [Coordinator.globalWorker, Coordinator.globalWorker, h.layout]

theorem globalWorker_lt {rank worker : Nat} (h : c.globalWorker rank worker = .ok g) :
    g < c.layout.workers := by
  obtain ⟨hrank, hworker, rfl⟩ := globalWorker_eq_ok.mp h
  have hmul := Nat.mul_le_mul_right c.layout.threadsPerRank hrank
  rw [Nat.succ_mul] at hmul
  unfold Layout.workers
  omega

end

/-! ## Moving a cursor -/

section Cursors

variable {c : Coordinator} {g amount : Nat} {k : Cursor}

/-- Moves the cursor `k` of worker `g`, short of the end of the word. -/
def advance (c : Coordinator) (g : Nat) (k : Cursor) (amount : Nat) : Coordinator :=
  { c with cursors := c.cursors.setIfInBounds g { k with next := k.next + amount } }

theorem claim_of_lt (hk : c.cursors[g]? = some k) (hnext : k.next < k.stop)
    (hwrap : k.next + amount < Word.size) :
    c.claim g amount = (.ok (some (k.next, min (k.next + amount) k.stop)), c.advance g k amount) := by
  rw [claim, hk]
  simp only [Cursor.claim, Word.checkedAdd, Word.wrappingAdd, if_pos hnext, if_pos hwrap,
    Nat.mod_eq_of_lt hwrap, bind, Except.bind, pure, Except.pure, advance]

theorem claim_of_le (hk : c.cursors[g]? = some k) (hnext : k.stop ≤ k.next)
    (hwrap : k.next + amount < Word.size) : c.claim g amount = (.ok none, c.advance g k amount) := by
  rw [claim, hk]
  simp only [Cursor.claim, Word.wrappingAdd, if_neg (Nat.not_lt.mpr hnext), Nat.mod_eq_of_lt hwrap, advance]

theorem getElem?_cursors_advance (hk : c.cursors[g]? = some k) (v : Nat) :
    (c.advance g k amount).cursors[v]?
      = if g = v then some { k with next := k.next + amount } else c.cursors[v]? := by
  obtain ⟨hg, -⟩ := Array.getElem?_eq_some_iff.mp hk
  rw [advance, Array.getElem?_setIfInBounds]
  by_cases h : g = v
  · rw [if_pos h, if_pos h, if_pos hg]
  · rw [if_neg h, if_neg h]

theorem later_advance (hk : c.cursors[g]? = some k) : c.Later (c.advance g k amount) where
  vertexCount := rfl
  layout := rfl
  chunkSize := rfl
  stealBatch := rfl
  cursors_size := Array.size_setIfInBounds
  backlogs_size := rfl
  cursor := fun v k' hk' => by
    rw [getElem?_cursors_advance hk] at hk'
    split at hk'
    · next h =>
        obtain rfl := Option.some.inj hk'
        exact ⟨k, h ▸ hk, rfl, Nat.le_add_right _ _⟩
    · exact ⟨k', hk', rfl, Nat.le_refl _⟩

theorem remaining_advance_of_le (hk : c.cursors[g]? = some k) (hnext : k.stop ≤ k.next) (v : Nat) :
    (c.advance g k amount).remaining v = c.remaining v := by
  by_cases h : g = v
  · subst h
    rw [remaining_eq hk, remaining_eq ((getElem?_cursors_advance hk g).trans (if_pos rfl)), Cursor.remaining,
      Cursor.remaining, Nat.sub_eq_zero_of_le hnext]
    exact Nat.sub_eq_zero_of_le (Nat.le_trans hnext (Nat.le_add_right _ _))
  · rw [remaining, remaining, getElem?_cursors_advance hk, if_neg h]

/-- Whoever moves a cursor gets what it passes. -/
theorem unclaimed_advance (hk : c.cursors[g]? = some k) (amount : Nat) :
    span k.next (min (k.next + amount) k.stop) + (c.advance g k amount).unclaimed = c.unclaimed := by
  have hset := sum_map_set (fun k : Cursor => span k.next k.stop)
    (b := ⟨k.next + amount, k.stop⟩) (Array.getElem?_toList .. |>.trans hk)
  rw [← Array.toList_setIfInBounds] at hset
  change (c.advance g k amount).unclaimed + span k.next k.stop
    = c.unclaimed + span (k.next + amount) k.stop at hset
  have hspan : span k.next (min (k.next + amount) k.stop) + span (k.next + amount) k.stop
      = span k.next k.stop := by
    rcases Nat.le_total (k.next + amount) k.stop with h | h
    · rw [Nat.min_eq_left h, span_add_span (Nat.le_add_right _ _) h]
    · rw [Nat.min_eq_right h, span_eq_zero h, add_zero]
  rw [← hspan, ← add_assoc] at hset
  exact (add_comm _ _).trans (add_right_cancel hset)

theorem card_unclaimed : c.unclaimed.card = (c.cursors.toList.map Cursor.remaining).sum := by
  rw [unclaimed]
  induction c.cursors.toList with
  | nil => rfl
  | cons k rest ih =>
      rw [List.map_cons, List.sum_cons, Multiset.card_add, card_span, ih, List.map_cons, List.sum_cons]
      rfl

theorem card_unclaimed_eq_zero_iff : c.unclaimed.card = 0 ↔ ∀ v, c.remaining v = 0 := by
  rw [card_unclaimed, List.sum_eq_zero_iff_forall_eq_nat]
  constructor
  · intro h v
    cases hk : c.cursors[v]? with
    | none => rw [remaining, hk]
    | some k =>
        rw [remaining_eq hk]
        exact h _ (List.mem_map_of_mem (Array.mem_toList_iff.mpr (Array.mem_of_getElem? hk)))
  · intro h x hx
    obtain ⟨k, hk, rfl⟩ := List.mem_map.mp hx
    obtain ⟨v, hv⟩ := Array.getElem?_of_mem (Array.mem_toList_iff.mp hk)
    rw [← remaining_eq hv]
    exact h v

end Cursors

/-! ## Changing what waits -/

section Waiting

variable {c : Coordinator} {g : Nat} {b : Array WorkUnit}

def setBacklog (c : Coordinator) (g : Nat) (b : Array WorkUnit) : Coordinator :=
  { c with backlogs := c.backlogs.setIfInBounds g b }

def setQueue (c : Coordinator) (units : List WorkUnit) : Coordinator :=
  { c with queue := { c.queue with units } }

def room (c : Coordinator) : Nat := c.queue.capacity - c.queue.size

theorem later_setBacklog : c.Later (c.setBacklog g b) :=
  { Later.refl c with backlogs_size := Array.size_setIfInBounds }

theorem later_setQueue {units : List WorkUnit} : c.Later (c.setQueue units) := { Later.refl c with }

theorem later_addProduced {n : Nat} : c.Later (c.addProduced n) := { Later.refl c with }

theorem later_addClaimed {n : Nat} : c.Later (c.addClaimed n) := { Later.refl c with }

theorem getElem?_backlogs_setBacklog {b' : Array WorkUnit} (hb : c.backlogs[g]? = some b) (v : Nat) :
    (c.setBacklog g b').backlogs[v]? = if g = v then some b' else c.backlogs[v]? := by
  obtain ⟨hg, -⟩ := Array.getElem?_eq_some_iff.mp hb
  rw [setBacklog, Array.getElem?_setIfInBounds]
  by_cases h : g = v
  · rw [if_pos h, if_pos h, if_pos hg]
  · rw [if_neg h, if_neg h]

theorem popBacklog_empty (hb : c.backlogs[g]? = some #[]) : c.popBacklog g = (none, c) := by
  obtain ⟨hg, hget⟩ := Array.getElem?_eq_some_iff.mp hb
  have hset : c.backlogs.setIfInBounds g #[] = c.backlogs := by
    rw [Array.setIfInBounds_def, dif_pos hg, ← hget, Array.set_getElem_self]
  rw [popBacklog, hb]
  simp only [Array.back?_empty, Array.pop_empty, hset]

theorem popBacklog_push {u : WorkUnit} (hb : c.backlogs[g]? = some (b.push u)) :
    c.popBacklog g = (some u, c.setBacklog g b) := by
  rw [popBacklog, hb]
  simp only [Array.back?_push, Array.pop_push, setBacklog]

theorem extendBacklog_eq (hb : c.backlogs[g]? = some b) (units : List WorkUnit) :
    c.extendBacklog g units = c.setBacklog g (b ++ units.toArray) := by
  have hmodify : c.backlogs.modify g (· ++ units.toArray) = c.backlogs.setIfInBounds g (b ++ units.toArray) := by
    apply Array.ext_getElem?
    intro v
    rw [Array.getElem?_modify, Array.getElem?_setIfInBounds]
    split
    · next h =>
        subst h
        rw [hb, if_pos (Array.getElem?_eq_some_iff.mp hb).1]
        rfl
    · rfl
  rw [extendBacklog, hmodify, setBacklog]

theorem popQueue_nil (hq : c.queue.units = []) : c.popQueue = (none, c) := by
  rw [popQueue, WorkQueue.pop, hq]

theorem popQueue_cons {u : WorkUnit} {rest : List WorkUnit} (hq : c.queue.units = u :: rest) :
    c.popQueue = (some u, c.setQueue rest) := by
  rw [popQueue, WorkQueue.pop, hq]
  rfl

theorem pushQueue_eq (units : List WorkUnit) :
    c.pushQueue units = (units.drop c.room, c.setQueue (c.queue.units ++ units.take c.room)) := rfl

theorem bag_waiting : bag c.waiting
    = bag c.queue.units + (c.backlogs.toList.map fun b => bag b.toList).sum := by
  rw [waiting, bag_append, bag_flatMap]

theorem bag_waiting_setBacklog (hb : c.backlogs[g]? = some b) (b' : Array WorkUnit) :
    bag (c.setBacklog g b').waiting + bag b.toList = bag c.waiting + bag b'.toList := by
  have hset := sum_map_set (fun b : Array WorkUnit => bag b.toList) (b := b')
    (Array.getElem?_toList .. |>.trans hb)
  rw [← Array.toList_setIfInBounds] at hset
  rw [bag_waiting, bag_waiting, add_assoc, add_assoc]
  exact congrArg (bag c.queue.units + ·) hset

theorem bag_waiting_setQueue (units : List WorkUnit) :
    bag (c.setQueue units).waiting + bag c.queue.units = bag c.waiting + bag units := by
  rw [bag_waiting, bag_waiting]
  show bag units + _ + _ = _
  rw [add_comm (bag units), add_assoc, add_comm (bag units), ← add_assoc, setQueue, add_comm (bag c.queue.units)]

theorem mem_waiting {u : WorkUnit} : u ∈ c.waiting ↔
    u ∈ c.queue.units ∨ ∃ (v : Nat) (b : Array WorkUnit), c.backlogs[v]? = some b ∧ u ∈ b := by
  rw [waiting, List.mem_append, List.mem_flatMap]
  refine or_congr_right ⟨?_, ?_⟩
  · rintro ⟨b, hb, hu⟩
    obtain ⟨v, hv⟩ := Array.getElem?_of_mem (Array.mem_toList_iff.mp hb)
    exact ⟨v, b, hv, Array.mem_toList_iff.mp hu⟩
  · rintro ⟨v, b, hv, hu⟩
    exact ⟨b, Array.mem_toList_iff.mpr (Array.mem_of_getElem? hv), Array.mem_toList_iff.mpr hu⟩

theorem waiting_eq_nil_iff : c.waiting = [] ↔
    c.queue.units = [] ∧ ∀ (v : Nat) (b : Array WorkUnit), c.backlogs[v]? = some b → b = #[] := by
  rw [List.eq_nil_iff_forall_not_mem]
  constructor
  · intro h
    refine ⟨List.eq_nil_iff_forall_not_mem.mpr fun u hu => h u (mem_waiting.mpr (.inl hu)), ?_⟩
    intro v b hb
    exact Array.eq_empty_iff_forall_not_mem.mpr fun u hu => h u (mem_waiting.mpr (.inr ⟨v, b, hb, hu⟩))
  · rintro ⟨hqueue, hbacklogs⟩ u hu
    rcases mem_waiting.mp hu with hu | ⟨v, b, hb, hu⟩
    · rw [hqueue] at hu
      cases hu
    · obtain rfl := hbacklogs v b hb
      exact absurd hu (Array.not_mem_empty u)

/-- A coordinator is drained if all slices are exhausted and no unit waits. -/
theorem isDrained_iff : c.isDrained = true ↔ (∀ v, c.remaining v = 0) ∧ c.waiting = [] := by
  rw [waiting_eq_nil_iff, isDrained, Bool.and_eq_true, Bool.and_eq_true, and_assoc]
  refine and_congr ?_ (and_congr List.isEmpty_iff ?_)
  · rw [Array.all_eq_true_iff_forall_mem]
    constructor
    · intro h v
      cases hk : c.cursors[v]? with
      | none => rw [remaining, hk]
      | some k =>
          rw [remaining_eq hk]
          exact of_decide_eq_true (h k (Array.mem_of_getElem? hk))
    · intro h k hk
      obtain ⟨v, hv⟩ := Array.getElem?_of_mem hk
      exact decide_eq_true (remaining_eq hv ▸ h v)
  · rw [Array.all_eq_true_iff_forall_mem]
    constructor
    · exact fun h v b hb => Array.isEmpty_iff.mp (h b (Array.mem_of_getElem? hb))
    · intro h b hb
      obtain ⟨v, hv⟩ := Array.getElem?_of_mem hb
      exact Array.isEmpty_iff.mpr (h v b hv)

end Waiting

/-! ## The start -/

section Start

variable {c : Coordinator} {n chunkSize queueCapacity stealBatch : Nat} {layout : Layout}

/-- What a coordinator is made of, and what has to hold for it to be made. -/
theorem start_eq_ok (h : start n layout chunkSize queueCapacity stealBatch = .ok c) :
    (0 < layout.workers ∧ layout.workers < Word.size) ∧ 0 < chunkSize ∧ 0 < stealBatch ∧ c =
      { vertexCount := n, layout, chunkSize, stealBatch
        cursors := (Array.range layout.workers).map fun g =>
          ⟨(staticSplit n layout g).1, (staticSplit n layout g).2⟩
        backlogs := Array.replicate layout.workers #[]
        queue := ⟨queueCapacity, []⟩
        produced := 0
        claimed := 0
        results := Array.replicate layout.ranks none
        reported := 0 } := by
  unfold start at h
  by_cases hranks : layout.ranks = 0
  · rw [if_pos hranks] at h
    cases h
  by_cases hthreads : layout.threadsPerRank = 0
  · rw [if_neg hranks, if_pos hthreads] at h
    cases h
  by_cases hchunk : chunkSize = 0
  · rw [if_neg hranks, if_neg hthreads, if_pos hchunk] at h
    cases h
  by_cases hbatch : stealBatch = 0
  · rw [if_neg hranks, if_neg hthreads, if_neg hchunk, if_pos hbatch] at h
    cases h
  rw [if_neg hranks, if_neg hthreads, if_neg hchunk, if_neg hbatch] at h
  obtain ⟨workers, hworkers, h⟩ := bind_eq_ok_iff.mp h
  obtain ⟨-, h⟩ := check_bind_eq_ok_iff.mp h
  obtain ⟨queue, hqueue, h⟩ := bind_eq_ok_iff.mp h
  obtain ⟨hmul, hsmall⟩ : layout.workers = workers ∧ layout.workers < Word.size := by
    unfold Word.checkedMul at hworkers
    split at hworkers
    · next hsmall => exact ⟨Except.ok.inj hworkers, hsmall⟩
    · cases hworkers
  subst hmul
  have hunits : queue = ⟨queueCapacity, []⟩ := by
    unfold WorkQueue.ofCapacity at hqueue
    by_cases hcapacity : queueCapacity = 0
    · rw [if_pos hcapacity] at hqueue
      cases hqueue
    rw [if_neg hcapacity] at hqueue
    obtain ⟨-, hqueue⟩ := check_bind_eq_ok_iff.mp hqueue
    exact (Except.ok.inj hqueue).symm
  subst hunits
  exact ⟨⟨Nat.mul_pos (Nat.pos_of_ne_zero hranks) (Nat.pos_of_ne_zero hthreads), hsmall⟩,
    Nat.pos_of_ne_zero hchunk, Nat.pos_of_ne_zero hbatch, (Except.ok.inj h).symm⟩

theorem fields_of_start (h : start n layout chunkSize queueCapacity stealBatch = .ok c) :
    c.vertexCount = n ∧ c.layout = layout ∧ c.produced = 0 ∧ c.claimed = 0 := by
  obtain ⟨-, -, -, rfl⟩ := start_eq_ok h
  exact ⟨rfl, rfl, rfl, rfl⟩

theorem sound_of_start (hn : n < 2 ^ 32) (h : start n layout chunkSize queueCapacity stealBatch = .ok c) :
    c.Sound := by
  obtain ⟨⟨hworkers, -⟩, hchunk, hbatch, rfl⟩ := start_eq_ok h
  refine ⟨hchunk, hbatch, hworkers, ?_, Array.size_replicate, ?_, hn⟩
  · rw [Array.size_map, Array.size_range]
  · intro g k hk
    rw [Array.getElem?_map] at hk
    obtain ⟨v, hv, rfl⟩ := Option.map_eq_some_iff.mp hk
    obtain ⟨hg, rfl⟩ := Array.getElem?_eq_some_iff.mp hv
    rw [Array.size_range] at hg
    rw [Array.getElem_range]
    exact Nat.div_le_of_le_mul (Nat.mul_comm (g + 1) n ▸ Nat.mul_le_mul_right n hg)

/-- The slices of the first `k` workers hold the vertices up to where the slice of worker `k` starts. -/
theorem sum_staticSplit (n : Nat) (layout : Layout) (k : Nat) :
    ((List.range k).map fun g => span (staticSplit n layout g).1 (staticSplit n layout g).2).sum
      = span 0 (n * k / layout.workers) := by
  induction k with
  | zero =>
      rw [Nat.mul_zero, Nat.zero_div, span_eq_zero (Nat.le_refl 0)]
      rfl
  | succ k ih =>
      rw [List.range_succ, List.map_append, List.sum_append, ih, List.map_singleton, List.sum_singleton]
      exact span_add_span (Nat.zero_le _) (Nat.div_le_div_right (Nat.mul_le_mul_left n (Nat.le_succ k)))

theorem unclaimed_of_start (h : start n layout chunkSize queueCapacity stealBatch = .ok c) :
    c.unclaimed = span 0 n := by
  obtain ⟨⟨hworkers, -⟩, -, -, rfl⟩ := start_eq_ok h
  rw [unclaimed, Array.toList_map, Array.toList_range, List.map_map]
  exact (sum_staticSplit n layout layout.workers).trans (by rw [Nat.mul_div_cancel _ hworkers])

theorem waiting_of_start (h : start n layout chunkSize queueCapacity stealBatch = .ok c) : c.waiting = [] := by
  obtain ⟨-, -, -, rfl⟩ := start_eq_ok h
  refine waiting_eq_nil_iff.mpr ⟨rfl, ?_⟩
  intro v b hb
  rw [Array.getElem?_replicate] at hb
  split at hb
  · exact (Option.some.inj hb).symm
  · cases hb

end Start

end PatternCount.Coordinator
