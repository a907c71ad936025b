import PatternCount.Proofs.Work.Calls

/-!
# Sequences of calls

A `Service` is a coordinator together with what has gone in and out: the units that were handed out, and those
that were put into its queue from outside. `Service.run` serves any sequence of requests, each a whole call.
`Service.Sound` is what every request preserves (`Service.Sound.run`), and from it follow the sums that always
hold (`Service.run_balance`).

The counters are words. What was claimed from the slices is never more than there are vertices, so `produced` is
exact. But the queue can be filled from outside again and again: `claimed` counts all that was handed out
modulo the size of a word, and is exact as long as that is a word. It comes round when a unit has passed through the
queue often enough (`Service.run_balance_wraps`).
-/

namespace PatternCount

open WorkUnit Coordinator

inductive Request where
  | getLoop (rank worker : Nat)
  | frontAndPop
  | setLoop (units : List WorkUnit)
deriving DecidableEq, Repr

/-- A coordinator, the units that it has handed out, and those that were put into its queue from outside. -/
structure Service where
  shared : Coordinator
  handed : List WorkUnit
  accepted : List WorkUnit
deriving DecidableEq, Repr

namespace Service

def start (c : Coordinator) : Service := ⟨c, [], []⟩

def answered (s : Service) : Except Fault (Option WorkUnit) × Coordinator → Service
  | (.ok u, c) => { s with shared := c, handed := s.handed ++ u.toList }
  | (.error _, c) => { s with shared := c }

def serve (s : Service) : Request → Service
  | .getLoop rank worker => s.answered (s.shared.getLoop rank worker)
  | .frontAndPop => s.answered s.shared.frontAndPop
  | .setLoop units =>
      let (left, c) := s.shared.setLoop units
      { s with shared := c, accepted := s.accepted ++ units.take (units.length - left.length) }

def run (s : Service) (requests : List Request) : Service := requests.foldl serve s

/-- Whether a cursor wraps around while a request is served. -/
def wraps (s : Service) : Request → Bool
  | .getLoop rank worker =>
      match s.shared.globalWorker rank worker with
      | .ok g => Call.runWraps g (Call.maxSteps s.shared.cursors.size) .claimOwn s.shared
      | .error _ => false
  | .frontAndPop => Call.runWraps 0 (Call.maxSteps s.shared.cursors.size) .popQueueAgain s.shared
  | .setLoop _ => false

def runWraps (s : Service) : (requests : List Request) → Bool
  | [] => false
  | r :: rest => s.wraps r || (s.serve r).runWraps rest

/-- What holds of a service of the vertices below `n`. -/
structure Sound (n : Nat) (s : Service) : Prop where
  shared : s.shared.Sound
  vertexCount : s.shared.vertexCount = n
  stock : bag s.handed + s.shared.stock = span 0 n + bag s.accepted
  produced : s.shared.produced + s.shared.unclaimed.card = n
  claimed : s.shared.claimed = volume s.handed % Word.size
  filled : (∀ u ∈ s.accepted, u.lo < u.hi) → ∀ u ∈ s.shared.waiting, u.lo < u.hi

variable {s : Service} {n chunkSize queueCapacity stealBatch : Nat} {layout : Layout} {c : Coordinator}

theorem sound_start (hn : n < 2 ^ 32)
    (hc : Coordinator.start n layout chunkSize queueCapacity stealBatch = .ok c) : (start c).Sound n := by
  obtain ⟨hcount, -, hproduced, hclaimed⟩ := fields_of_start hc
  refine ⟨sound_of_start hn hc, hcount, ?_, ?_, hclaimed, ?_⟩
  · show bag [] + c.stock = span 0 n + bag []
    rw [stock_of_start hc, add_comm]
  · show c.produced + c.unclaimed.card = n
    rw [hproduced, unclaimed_of_start hc, card_span, Nat.zero_add, Nat.sub_zero]
  · intro _ u hu
    have hu : u ∈ c.waiting := hu
    rw [waiting_of_start hc] at hu
    cases hu

/-! ## Single requests -/

theorem Sound.answered (h : s.Sound n) {u : Option WorkUnit} (hlater : s.shared.Later c)
    (hsince : Call.Since s.shared (.finished u) c) : (s.answered (.ok u, c)).Sound n := by
  have hreturned : Call.returned (.finished u) = u.toList := by cases u <;> rfl
  have hfits : s.shared.produced + s.shared.unclaimed.card < Word.size := by
    have hsmall := h.vertexCount ▸ h.shared.vertexCount_lt
    have hsize : Word.size = 2 ^ 64 := rfl
    rw [h.produced]
    omega
  refine ⟨h.shared.later hlater, hlater.vertexCount.trans h.vertexCount, ?_, ?_, ?_, ?_⟩
  · have hstock := hsince.stock
    rw [hreturned] at hstock
    show bag (s.handed ++ u.toList) + c.stock = span 0 n + bag s.accepted
    rw [bag_append, ← h.stock, ← hstock, add_assoc]
    exact congrArg (fun x => bag s.handed + (x + c.stock)) (add_zero _).symm
  · exact (hsince.produced hfits).trans h.produced
  · have hclaimed := hsince.claimed _ h.claimed
    rw [hreturned, ← volume_append] at hclaimed
    exact hclaimed
  · intro haccepted
    exact (hsince.filled (h.filled haccepted)).2

/-- What `setLoop` takes is the front of the units; the rest stays with the caller. -/
theorem serve_setLoop (s : Service) (units : List WorkUnit) : s.serve (.setLoop units) =
    ⟨s.shared.setQueue (s.shared.queue.units ++ units.take s.shared.room), s.handed,
      s.accepted ++ units.take s.shared.room⟩ := by
  have htake : units.take (units.length - (units.drop s.shared.room).length) = units.take s.shared.room := by
    rw [List.length_drop]
    rcases Nat.le_total s.shared.room units.length with h | h
    · rw [Nat.sub_sub_self h]
    · rw [Nat.sub_eq_zero_of_le h, Nat.sub_zero, List.take_length, List.take_of_length_le h]
  rw [serve, Coordinator.setLoop, pushQueue_eq]
  simp only [htake]

theorem Sound.setLoop (h : s.Sound n) (units : List WorkUnit) : (s.serve (.setLoop units)).Sound n := by
  rw [serve_setLoop]
  refine ⟨h.shared.later later_setQueue, h.vertexCount, ?_, h.produced, h.claimed, ?_⟩
  · show bag s.handed + (s.shared.setQueue _).stock = span 0 n + bag (s.accepted ++ _)
    rw [stock_pushQueue, bag_append, ← add_assoc, h.stock, add_assoc]
  · intro haccepted u hu
    rw [List.forall_mem_append] at haccepted
    rcases Call.mem_waiting_of_setQueue hu with hu | hu
    · rcases List.mem_append.mp hu with hu | hu
      · exact h.filled haccepted.1 u (mem_waiting.mpr (.inl hu))
      · exact haccepted.2 u hu
    · exact h.filled haccepted.1 u hu

theorem Sound.serve (h : s.Sound n) {r : Request} (hwrap : s.wraps r = false) : (s.serve r).Sound n := by
  cases r with
  | getLoop rank worker =>
      show (s.answered (s.shared.getLoop rank worker)).Sound n
      cases hg : s.shared.globalWorker rank worker with
      | error f =>
          have heq : s.shared.getLoop rank worker = (.error f, s.shared) := by
            simp only [Coordinator.getLoop, hg]
          rw [heq]
          exact h
      | ok g =>
          rw [wraps, hg] at hwrap
          obtain ⟨u, c', heq, hlater, hsince, -⟩ := getLoop_eq_ok h.shared hg hwrap
          rw [heq]
          exact h.answered hlater hsince
  | frontAndPop =>
      obtain ⟨u, c', heq, hlater, hsince⟩ := frontAndPop_eq_ok h.shared
      rw [Service.serve, heq]
      exact h.answered hlater hsince
  | setLoop units => exact h.setLoop units

theorem Sound.run (requests : List Request) {s : Service} (h : s.Sound n) (hwrap : s.runWraps requests = false) :
    (s.run requests).Sound n := by
  induction requests generalizing s with
  | nil => exact h
  | cons r rest ih =>
      obtain ⟨hserve, hrest⟩ := Bool.or_eq_false_iff.mp hwrap
      exact ih (h.serve hserve) hrest

/-! ## Units that pass through the queue -/

/-- A unit is put into the queue and taken out again, that many times. -/
def passing (u : WorkUnit) (times : Nat) : List Request := (List.replicate times [.setLoop [u], .frontAndPop]).flatten

variable {u : WorkUnit}

theorem serve_passing (hempty : s.shared.queue.units = []) (hroom : 0 < s.shared.queue.capacity) :
    (s.serve (.setLoop [u])).serve .frontAndPop
      = ⟨(s.shared.setQueue []).addClaimed u.size, s.handed ++ [u], s.accepted ++ [u]⟩ := by
  have htake : [u].take s.shared.room = [u] := by
    refine List.take_of_length_le ?_
    rw [room, WorkQueue.size, hempty]
    exact hroom
  rw [serve_setLoop, htake, hempty, Service.serve, frontAndPop_cons rfl]
  rfl

/-- A unit that passes through an empty queue is accepted each time, and leaves what waits as it is. -/
theorem run_passing (times : Nat) {s : Service} (hempty : s.shared.queue.units = [])
    (hroom : 0 < s.shared.queue.capacity) :
    s.runWraps (passing u times) = false ∧ (s.run (passing u times)).accepted = s.accepted ++ List.replicate times u ∧
      (s.run (passing u times)).shared.waiting = s.shared.waiting := by
  induction times generalizing s with
  | zero => exact ⟨rfl, (List.append_nil _).symm, rfl⟩
  | succ times ih =>
      let s' : Service := ⟨(s.shared.setQueue []).addClaimed u.size, s.handed ++ [u], s.accepted ++ [u]⟩
      have hserve : (s.serve (.setLoop [u])).serve .frontAndPop = s' := serve_passing hempty hroom
      have hcons : passing u (times + 1) = .setLoop [u] :: .frontAndPop :: passing u times := by
        rw [passing, List.replicate_succ, List.flatten_cons]
        rfl
      obtain ⟨hwrap, haccepted, hwaiting⟩ : s'.runWraps (passing u times) = false ∧
        (s'.run (passing u times)).accepted = s'.accepted ++ List.replicate times u ∧
          (s'.run (passing u times)).shared.waiting = s'.shared.waiting := ih rfl hroom
      have hwraps : (s.serve (.setLoop [u])).wraps .frontAndPop = false := Call.runWraps_popQueueAgain _
      rw [hcons, run, List.foldl_cons, List.foldl_cons, runWraps, runWraps, hwraps, hserve]
      refine ⟨hwrap, haccepted.trans ?_, hwaiting.trans (congrArg (· ++ _) hempty.symm)⟩
      rw [List.append_assoc, List.replicate_succ]
      rfl

/-! ## Sums -/

theorem Sound.volume_eq (h : s.Sound n) :
    volume s.handed + volume s.shared.waiting + s.shared.unclaimed.card = n + volume s.accepted := by
  have hcard := congrArg Multiset.card h.stock
  rw [Coordinator.stock, Multiset.card_add, Multiset.card_add, Multiset.card_add, card_bag, card_bag, card_bag,
    card_span, Nat.sub_zero, ← Nat.add_assoc] at hcard
  exact hcard

/-- If units are never empty, all is drained exactly if all vertices that ever came in have been handed out. -/
theorem Sound.isDrained_iff (h : s.Sound n) (haccepted : ∀ u ∈ s.accepted, u.lo < u.hi) :
    s.shared.isDrained = true ↔ volume s.handed = n + volume s.accepted := by
  have hvolume := h.volume_eq
  rw [Coordinator.isDrained_iff, ← card_unclaimed_eq_zero_iff]
  constructor
  · rintro ⟨hunclaimed, hwaiting⟩
    rw [hwaiting, hunclaimed] at hvolume
    exact hvolume
  · intro hall
    refine ⟨by omega, eq_nil_of_volume_eq_zero (h.filled haccepted) (by omega)⟩

/-- After any sequence of requests: the vertices of the units handed out, of those that wait and of the
unclaimed rests are all vertices and those accepted from outside; the counters agree with that as words, and as
numbers as long as what has been handed out is a word; a call of a worker answers, and gets nothing exactly if
nothing is there for the worker; units from outside that are not accepted stay with the caller; and the coordinator
is drained exactly if all that came in has been handed out. -/
theorem run_balance (hn : n < 2 ^ 32)
    (hc : Coordinator.start n layout chunkSize queueCapacity stealBatch = .ok c) {requests : List Request}
    (hwrap : (start c).runWraps requests = false) :
    let s := (start c).run requests
    (bag s.handed + bag s.shared.queue.units + bag (s.shared.backlogs.toList.flatMap Array.toList)
        + s.shared.unclaimed = span 0 n + bag s.accepted) ∧
      s.shared.produced + s.shared.unclaimed.card = n ∧
      s.shared.produced + volume s.accepted = volume s.handed + volume s.shared.waiting ∧
      s.shared.claimed = volume s.handed % Word.size ∧
      (s.shared.produced + volume s.accepted) % Word.size
        = (s.shared.claimed + volume s.shared.waiting) % Word.size ∧
      (volume s.handed < Word.size →
        s.shared.produced + volume s.accepted = s.shared.claimed + volume s.shared.waiting) ∧
      (∀ units, (s.serve (.setLoop units)).accepted ++ (s.shared.setLoop units).1 = s.accepted ++ units) ∧
      (∀ rank worker g, s.shared.globalWorker rank worker = .ok g → s.wraps (.getLoop rank worker) = false →
        ∃ u, (s.shared.getLoop rank worker).1 = .ok u ∧ (u = none ↔
          (∀ v, s.shared.remaining v = 0) ∧ s.shared.queue.units = [] ∧ s.shared.backlogs[g]? = some #[])) ∧
      ((∀ u ∈ s.accepted, u.lo < u.hi) →
        (s.shared.isDrained = true ↔ volume s.handed = n + volume s.accepted) ∧
          (volume s.handed < Word.size →
            (s.shared.isDrained = true ↔ s.shared.claimed = n + volume s.accepted))) := by
  intro s
  have h : s.Sound n := Sound.run requests (sound_start hn hc) hwrap
  have hvolume := h.volume_eq
  have hproduced := h.produced
  have hexact : volume s.handed < Word.size → s.shared.claimed = volume s.handed := fun hword =>
    h.claimed.trans (Nat.mod_eq_of_lt hword)
  have hsum : s.shared.produced + volume s.accepted = volume s.handed + volume s.shared.waiting := by omega
  refine ⟨?_, hproduced, hsum, h.claimed, ?_, fun hword => ?_, fun units => ?_, ?_, fun haccepted => ⟨?_, ?_⟩⟩
  · have hstock := h.stock
    rw [Coordinator.stock, Coordinator.waiting, bag_append] at hstock
    rw [← hstock]
    abel
  · rw [hsum, h.claimed, Nat.mod_add_mod]
  · rw [hexact hword]
    exact hsum
  · rw [serve_setLoop, Coordinator.setLoop, pushQueue_eq, List.append_assoc]
    exact congrArg (s.accepted ++ ·) (List.take_append_drop _ _)
  · intro rank worker g hg hcall
    rw [wraps, hg] at hcall
    obtain ⟨u, c', heq, -, -, hnone⟩ := getLoop_eq_ok h.shared hg hcall
    exact ⟨u, congrArg Prod.fst heq, hnone⟩
  · exact h.isDrained_iff haccepted
  · intro hword
    rw [hexact hword]
    exact h.isDrained_iff haccepted

/-- Two workers and a queue for one unit: a steal leaves a unit in the backlog of the thief, and of two units
from outside one is accepted and the other finds no room. -/
theorem run_balance_two : ∃ c requests, Coordinator.start 12 ⟨1, 2⟩ 1 1 4 = .ok c ∧
    (start c).runWraps requests = false ∧
      ((start c).run requests).shared.isDrained = true ∧
      ((start c).run requests).shared.claimed = 12 + volume ((start c).run requests).accepted := by
  let c : Coordinator :=
    { vertexCount := 12, layout := ⟨1, 2⟩, chunkSize := 1, stealBatch := 4
      cursors := #[⟨0, 6⟩, ⟨6, 12⟩], backlogs := #[#[], #[]], queue := ⟨1, []⟩
      produced := 0, claimed := 0, results := #[none], reported := 0 }
  let requests : List Request :=
    List.replicate 7 (.getLoop 0 0) ++ [.frontAndPop, .setLoop [⟨3, 9, 5⟩, ⟨8, 9, 5⟩]] ++
      List.replicate 4 (.getLoop 0 1) ++ List.replicate 2 (.getLoop 0 0)
  have hc : Coordinator.start 12 ⟨1, 2⟩ 1 1 4 = .ok c := by decide +kernel
  have hwrap : (start c).runWraps requests = false := by decide +kernel
  have hdrained : ((start c).run requests).shared.isDrained = true := by decide +kernel
  have haccepted : ∀ u ∈ ((start c).run requests).accepted, u.lo < u.hi := by decide +kernel
  have hword : volume ((start c).run requests).handed < Word.size := by decide +kernel
  have hbalance := (run_balance (by decide) hc hwrap).2.2.2.2.2.2.2.2 haccepted
  exact ⟨c, requests, hc, hwrap, hdrained, (hbalance.2 hword).mp hdrained⟩

/-- A unit of `2 ^ 32 - 1` vertices passes through the queue of a coordinator that has no vertices of its own, until
more than a word of them have been handed out: nothing is left, and `claimed` has come round. -/
theorem run_balance_wraps : ∃ c, Coordinator.start 0 ⟨1, 1⟩ 1 1 1 = .ok c ∧
    (start c).runWraps (passing ⟨0, 2 ^ 32 - 1, 0⟩ (2 ^ 32 + 2)) = false ∧
      let s := (start c).run (passing ⟨0, 2 ^ 32 - 1, 0⟩ (2 ^ 32 + 2))
      (∀ u ∈ s.accepted, u.lo < u.hi) ∧ s.shared.claimed = 2 ^ 32 - 2 ∧
        s.shared.produced + volume s.accepted ≠ s.shared.claimed + volume s.shared.waiting ∧
        s.shared.isDrained = true ∧ s.shared.claimed ≠ 0 + volume s.accepted := by
  let c : Coordinator :=
    { vertexCount := 0, layout := ⟨1, 1⟩, chunkSize := 1, stealBatch := 1
      cursors := #[⟨0, 0⟩], backlogs := #[#[]], queue := ⟨1, []⟩
      produced := 0, claimed := 0, results := #[none], reported := 0 }
  let u : WorkUnit := ⟨0, 2 ^ 32 - 1, 0⟩
  have hc : Coordinator.start 0 ⟨1, 1⟩ 1 1 1 = .ok c := by decide +kernel
  obtain ⟨hwrap, haccepted, hwaiting⟩ := run_passing (u := u) (2 ^ 32 + 2) (s := start c) rfl Nat.one_pos
  have h := Sound.run (passing u (2 ^ 32 + 2)) (sound_start (by decide) hc) hwrap
  refine ⟨c, hc, hwrap, ?_⟩
  -- From here on only what is known of the run is used, which is far too long to be made.
  generalize (start c).run (passing u (2 ^ 32 + 2)) = s at h haccepted hwaiting ⊢
  rw [show (start c).shared.waiting = [] from rfl] at hwaiting
  have hvolume : volume s.accepted = (2 ^ 32 + 2) * (2 ^ 32 - 1) := by
    rw [haccepted]
    exact volume_replicate _ _
  have hhanded : volume s.handed = volume s.accepted := by
    have hbalance := h.volume_eq
    have hproduced := h.produced
    rw [hwaiting, volume_nil] at hbalance
    omega
  have hnonempty : ∀ u ∈ s.accepted, u.lo < u.hi := by
    rw [haccepted]
    intro u hu
    rw [List.eq_of_mem_replicate hu]
    decide
  have hclaimed : s.shared.claimed = 2 ^ 32 - 2 := by
    rw [h.claimed, hhanded, hvolume]
    rfl
  refine ⟨hnonempty, hclaimed, ?_, (h.isDrained_iff hnonempty).mpr (by rw [hhanded, Nat.zero_add]), ?_⟩
  · rw [hvolume, hclaimed, hwaiting, volume_nil]
    exact (Nat.lt_of_lt_of_le (by decide) (Nat.le_add_left _ _)).ne'
  · rw [hvolume, hclaimed]
    decide

end Service

end PatternCount
