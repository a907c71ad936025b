import PatternCount.Proofs.Outcome
import PatternCount.Work.Queue

/-!
# What goes into a queue comes out of it in order

A `Flow` is a queue together with what has passed through it: the units that it has accepted and those that it has
given out, both in order. `Flow.run` carries out any sequence of calls. The room for a batch is found by a subtraction
in words (`WorkQueue.pushBatchAt`), which would be a fault if the queue held more units than its capacity.

It never does (`Flow.Sound`, kept by each call and so by a run of them), and nothing is lost, repeated or reordered on
the way: what has been given out, followed by what still waits, is what has been accepted (`Flow.run_fifo`).
-/

namespace PatternCount

/-- A call of a queue. -/
inductive QueueCall where
  | push (unit : WorkUnit)
  | pushBatch (units : List WorkUnit)
  | pop
deriving DecidableEq, Repr

/-- Appends as many of the units as fit, and says how many these are; then the units that do not fit, and the queue. -/
def WorkQueue.pushBatchAt (q : WorkQueue) (units : List WorkUnit) :
    Except Fault (Nat × List WorkUnit × WorkQueue) := do
  let room ← Word.checkedSub q.capacity q.size
  return (min units.length room, q.pushBatch units)

/-- A queue, the units that it has accepted, and those that it has given out. -/
structure Flow where
  queue : WorkQueue
  accepted : List WorkUnit
  popped : List WorkUnit
deriving DecidableEq, Repr

namespace Flow

/-- Nothing has gone into the queue. -/
def start (capacity : Nat) : Flow := ⟨⟨capacity, []⟩, [], []⟩

/-- What is accepted is read off the answer: a unit that does not come back, and as many units of a batch as the
answer says. -/
def serve (s : Flow) : QueueCall → Except Fault Flow
  | .push u =>
      match s.queue.push u with
      | .ok q => .ok { s with queue := q, accepted := s.accepted ++ [u] }
      | .error _ => .ok s
  | .pushBatch units => do
      let (moved, _, q) ← s.queue.pushBatchAt units
      return { s with queue := q, accepted := s.accepted ++ units.take moved }
  | .pop =>
      let (u, q) := s.queue.pop
      .ok { s with queue := q, popped := s.popped ++ u.toList }

def run (s : Flow) (calls : List QueueCall) : Except Fault Flow := calls.foldlM serve s

/-- What holds of a queue of that capacity and what has passed through it. -/
structure Sound (capacity : Nat) (s : Flow) : Prop where
  capacity_eq : s.queue.capacity = capacity
  size_le : s.queue.size ≤ capacity
  fifo : s.popped ++ s.queue.units = s.accepted

end Flow

/-! ## Single calls -/

namespace WorkQueue

variable {q : WorkQueue}

theorem push_of_full (h : q.size = q.capacity) (u : WorkUnit) : q.push u = .error u :=
  if_pos (Nat.le_of_eq h.symm)

theorem push_of_lt (h : q.size < q.capacity) (u : WorkUnit) :
    q.push u = .ok { q with units := q.units ++ [u] } :=
  if_neg (Nat.not_le.mpr h)

/-- A batch is cut in two: its front, as long as there is room, is appended, and the rest stays with the caller. -/
theorem pushBatchAt_eq_ok (h : q.size ≤ q.capacity) (units : List WorkUnit) :
    ∃ moved left, units = moved ++ left ∧
      q.pushBatchAt units = .ok (moved.length, left, { q with units := q.units ++ moved }) ∧
      ∀ k, k ≤ moved.length ↔ k ≤ units.length ∧ q.size + k ≤ q.capacity := by
  have hroom : Word.checkedSub q.capacity q.size = .ok (q.capacity - q.size) := if_pos h
  have hlength : (units.take (q.capacity - q.size)).length = min units.length (q.capacity - q.size) := by
    rw [List.length_take, Nat.min_comm]
  refine ⟨units.take (q.capacity - q.size), units.drop (q.capacity - q.size), (List.take_append_drop ..).symm, ?_, ?_⟩
  · rw [pushBatchAt, hroom, hlength]
    rfl
  · intro k
    rw [hlength]
    omega

theorem pop_eq : q.pop = (q.units.head?, { q with units := q.units.tail }) := by
  obtain ⟨capacity, units⟩ := q
  cases units <;> rfl

end WorkQueue

namespace Flow

variable {capacity : Nat} {s : Flow}

/-! ## Runs -/

theorem sound_start (capacity : Nat) : (start capacity).Sound capacity where
  capacity_eq := rfl
  size_le := Nat.zero_le _
  fifo := rfl

/-- A call is carried out, and keeps what holds of a queue. -/
theorem Sound.serve (h : s.Sound capacity) (call : QueueCall) :
    ∃ s', s.serve call = .ok s' ∧ s'.Sound capacity := by
  obtain ⟨q, accepted, popped⟩ := s
  obtain ⟨rfl, hsize, hfifo⟩ := h
  replace hsize : q.size ≤ q.capacity := hsize
  replace hfifo : popped ++ q.units = accepted := hfifo
  cases call with
  | push u =>
      rcases Nat.lt_or_eq_of_le hsize with hlt | hfull
      · refine ⟨⟨{ q with units := q.units ++ [u] }, accepted ++ [u], popped⟩, ?_, rfl, ?_, ?_⟩
        · simp only [Flow.serve, WorkQueue.push_of_lt hlt]
        · show (q.units ++ [u]).length ≤ q.capacity
          rw [List.length_append]
          exact hlt
        · rw [← hfifo, List.append_assoc]
      · exact ⟨⟨q, accepted, popped⟩, by simp only [Flow.serve, WorkQueue.push_of_full hfull], rfl, hsize, hfifo⟩
  | pushBatch units =>
      obtain ⟨moved, left, rfl, hpush, hfits⟩ := WorkQueue.pushBatchAt_eq_ok hsize units
      refine ⟨⟨{ q with units := q.units ++ moved }, accepted ++ moved, popped⟩, ?_, rfl, ?_, ?_⟩
      · simp only [Flow.serve, hpush, List.take_left, bind, Except.bind, pure, Except.pure]
      · show (q.units ++ moved).length ≤ q.capacity
        rw [List.length_append]
        exact ((hfits moved.length).mp (Nat.le_refl _)).2
      · rw [← hfifo, List.append_assoc]
  | pop =>
      refine ⟨⟨{ q with units := q.units.tail }, accepted, popped ++ q.units.head?.toList⟩, ?_, rfl, ?_, ?_⟩
      · simp only [Flow.serve, WorkQueue.pop_eq]
      · show q.units.tail.length ≤ q.capacity
        rw [List.length_tail]
        exact Nat.le_trans (Nat.sub_le ..) hsize
      · rw [← hfifo, List.append_assoc]
        cases q.units <;> rfl

theorem Sound.run (h : s.Sound capacity) (calls : List QueueCall) :
    ∃ s', s.run calls = .ok s' ∧ s'.Sound capacity := by
  induction calls generalizing s with
  | nil => exact ⟨s, rfl, h⟩
  | cons call rest ih =>
      obtain ⟨s', hserve, hs'⟩ := h.serve call
      obtain ⟨s'', hrun, hs''⟩ := ih hs'
      exact ⟨s'', by rw [Flow.run, List.foldlM_cons, hserve]; exact hrun, hs''⟩

/-- Any sequence of calls is carried out. The queue holds no more units than its capacity, and what it has given out,
followed by what it holds, is what it has accepted, in order. The next unit is refused just if the queue is full, and
comes back; of the next batch the longest front for which there is room is accepted, and the rest comes back in order;
and what is taken next is the oldest unit. -/
theorem run_fifo (capacity : Nat) (calls : List QueueCall) :
    ∃ s, (start capacity).run calls = .ok s ∧ s.queue.capacity = capacity ∧ s.queue.size ≤ capacity ∧
      s.popped ++ s.queue.units = s.accepted ∧
      (∀ u, s.queue.push u =
        if s.queue.size = capacity then .error u else .ok { s.queue with units := s.queue.units ++ [u] }) ∧
      (∀ units, ∃ moved left, units = moved ++ left ∧
        s.queue.pushBatchAt units = .ok (moved.length, left, { s.queue with units := s.queue.units ++ moved }) ∧
        ∀ k, k ≤ moved.length ↔ k ≤ units.length ∧ s.queue.size + k ≤ capacity) ∧
      s.queue.pop = (s.queue.units.head?, { s.queue with units := s.queue.units.tail }) := by
  obtain ⟨s, hrun, h⟩ := (sound_start capacity).run calls
  obtain rfl := h.capacity_eq
  refine ⟨s, hrun, rfl, h.size_le, h.fifo, fun u => ?_, WorkQueue.pushBatchAt_eq_ok h.size_le, WorkQueue.pop_eq⟩
  split
  · next hfull => exact WorkQueue.push_of_full hfull u
  · next hroom => exact WorkQueue.push_of_lt (Nat.lt_of_le_of_ne h.size_le hroom) u

/-- A queue for two units is full after the first of a batch, and takes one more unit when one has left. -/
example : ((start 2).run [.push ⟨0, 1, 0⟩, .pushBatch [⟨1, 2, 0⟩, ⟨2, 3, 0⟩], .push ⟨3, 4, 0⟩, .pop, .push ⟨4, 5, 0⟩])
    = .ok ⟨⟨2, [⟨1, 2, 0⟩, ⟨4, 5, 0⟩]⟩, [⟨0, 1, 0⟩, ⟨1, 2, 0⟩, ⟨4, 5, 0⟩], [⟨0, 1, 0⟩]⟩ := by rfl

end Flow

end PatternCount
