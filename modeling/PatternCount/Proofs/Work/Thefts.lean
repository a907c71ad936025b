import Mathlib.Algebra.Order.Floor.Div
import PatternCount.Proofs.Work.Slices

/-!
# What a theft does

A worker that finds nothing at hand steals from the worker that has most left, of several from the last
(`Coordinator.StealsFrom`). It takes half of the chunks that are left there, rounded up, but no more than the limit
(`Coordinator.haul`). The range is cut into `Chunks`, of which it gets the first; the others go into the queue as far
as there is room, and then into its backlog (`Coordinator.Theft`).

`Call.Course` says how far a call has come on that way, and each step keeps it (`Call.Move.course`). So an
uninterrupted call steals exactly if it has to, and moves no cursor of another worker if it does not
(`Coordinator.getLoop_steals`), whatever calls came before it (`Service.run_units_and_thefts`).
-/

namespace PatternCount

open WorkUnit Coordinator

/-! ## Cutting what was stolen -/

namespace Call

/-- Units one behind the other from `lo` up to `hi`: each is a whole chunk, but for the last, which may be shorter. -/
inductive Chunks (chunkSize owner hi : Nat) : (lo : Nat) → List WorkUnit → Prop where
  | last {lo : Nat} (hlo : lo < hi) (hhi : hi ≤ lo + chunkSize) : Chunks chunkSize owner hi lo [⟨lo, hi, owner⟩]
  | cons {lo : Nat} {us : List WorkUnit} (hlo : lo + chunkSize < hi)
      (h : Chunks chunkSize owner hi (lo + chunkSize) us) :
      Chunks chunkSize owner hi lo (⟨lo, lo + chunkSize, owner⟩ :: us)

variable {chunkSize owner hi : Nat}

theorem chunks_cut (hhi : hi < 2 ^ 32) : ∀ {count lo : Nat}, hi ≤ lo + (count + 1) * chunkSize →
    lo + count * chunkSize < hi → Chunks chunkSize owner hi lo (cut chunkSize hi owner (count + 1) lo)
  | count, lo, hle, hlt => by
      have hlo : lo < hi := Nat.lt_of_le_of_lt (Nat.le_add_right lo _) hlt
      rw [cut, unitOf_eq (Nat.lt_trans hlo hhi) (Nat.lt_of_le_of_lt (Nat.min_le_right _ _) hhi)]
      cases count with
      | zero =>
          rw [Nat.zero_add, Nat.one_mul] at hle
          rw [Nat.min_eq_right hle]
          exact .last hlo hle
      | succ count =>
          rw [Nat.succ_mul] at hle hlt
          rw [Nat.min_eq_left (by omega)]
          exact .cons (by omega) (chunks_cut hhi (by omega) (by omega))

theorem chunks_units {lo : Nat} (hchunk : 0 < chunkSize) (hhi : hi < 2 ^ 32) (hlo : lo < hi) :
    Chunks chunkSize owner hi lo (units chunkSize lo hi owner) := by
  have hpos : 0 < Word.ceilDiv (hi - lo) chunkSize := ceilDiv_pos hchunk (Nat.sub_pos_of_lt hlo)
  have hlast := last_chunk_lt hchunk hpos
  have hle := le_ceilDiv_mul (a := hi - lo) hchunk
  obtain ⟨count, hcount⟩ := Nat.exists_eq_add_one_of_ne_zero (Nat.ne_of_gt hpos)
  rw [hcount] at hle hlast
  rw [units, hcount]
  exact chunks_cut hhi (by omega) hlast

theorem ceilDiv_eq {a b : Nat} (hb : 0 < b) : Word.ceilDiv a b = a ⌈/⌉ b := by
  apply Nat.le_antisymm
  · refine Nat.le_of_lt_succ (Nat.lt_of_mul_lt_mul_right (a := b) ?_)
    have hlt := ceilDiv_mul_lt (a := a) hb
    have hle := (ceilDiv_le_iff_le_mul (b := a) hb).mp (Nat.le_refl (a ⌈/⌉ b))
    rw [Nat.succ_mul, Nat.mul_comm (a ⌈/⌉ b)]
    omega
  · rw [ceilDiv_le_iff_le_mul hb, Nat.mul_comm]
    exact le_ceilDiv_mul hb

theorem chunksToSteal_eq {remaining : Nat} (stealBatch : Nat) (hchunk : 0 < chunkSize) (hremaining : 0 < remaining) :
    chunksToSteal remaining chunkSize stealBatch = min stealBatch (remaining ⌈/⌉ chunkSize ⌈/⌉ 2) := by
  have hhalf : 0 < Word.ceilDiv (Word.ceilDiv remaining chunkSize) 2 :=
    ceilDiv_pos Nat.zero_lt_two (ceilDiv_pos hchunk hremaining)
  rw [chunksToSteal, Nat.max_eq_left hhalf, ceilDiv_eq Nat.zero_lt_two, ceilDiv_eq hchunk, Nat.min_comm]

end Call

/-! ## Thefts -/

namespace Coordinator

/-- Worker `g` finds nothing at hand, and of the others `victim` is the last that has most left. -/
structure StealsFrom (c : Coordinator) (g victim : Nat) : Prop where
  own : c.remaining g = 0
  backlog : c.backlogs[g]? = some #[]
  queue : c.queue.units = []
  ne : victim ≠ g
  pos : 0 < c.remaining victim
  most : ∀ v, v ≠ g → c.remaining v ≤ c.remaining victim
  last : ∀ v, v ≠ g → victim < v → c.remaining v < c.remaining victim

/-- How far a cursor moves on if its worker has `remaining` vertices left and is stolen from. -/
def haul (c : Coordinator) (remaining : Nat) : Nat := min c.stealBatch (remaining ⌈/⌉ c.chunkSize ⌈/⌉ 2) * c.chunkSize

/-- From `c` to `c'` worker `g` has moved the cursor `k` of the worker that it has to steal from. -/
structure Taken (c : Coordinator) (g victim : Nat) (k : Cursor) (c' : Coordinator) : Prop where
  steals : c.StealsFrom g victim
  cursor : c.cursors[victim]? = some k
  cursors : ∀ v, v ≠ g → c'.cursors[v]? =
    if v = victim then some { k with next := k.next + c.haul k.remaining } else c.cursors[v]?

/-- What has been taken is cut into the units `first :: rest`, and the rest is put away. -/
structure Theft (c : Coordinator) (g victim : Nat) (k : Cursor) (first : WorkUnit) (rest : List WorkUnit)
    (c' : Coordinator) : Prop extends c.Taken g victim k c' where
  chunks : Call.Chunks c.chunkSize victim (min (k.next + c.haul k.remaining) k.stop) k.next (first :: rest)
  queue : c'.queue = ⟨c.queue.capacity, c.queue.units ++ rest.take c.room⟩
  backlogs : ∀ v, c'.backlogs[v]? = if v = g then some (rest.drop c.room).toArray else c.backlogs[v]?

variable {c c₀ : Coordinator} {g v victim victim' : Nat}

theorem StealsFrom.unique (h : c.StealsFrom g victim) (h' : c.StealsFrom g victim') : victim = victim' := by
  rcases Nat.lt_trichotomy victim victim' with hlt | heq | hlt
  · exact absurd (h.last victim' h'.ne hlt) (Nat.not_lt_of_le (h'.most victim h.ne))
  · exact heq
  · exact absurd (h'.last victim h.ne hlt) (Nat.not_lt_of_le (h.most victim' h'.ne))

theorem StealsFrom.not_bare (h : c.StealsFrom g victim) : ¬ Call.Bare g c :=
  fun hbare => Nat.ne_of_gt h.pos (hbare.1 victim)

end Coordinator

/-! ## The course of a call -/

namespace Call

/-- Of what was in `c₀`, at most the cursor of worker `g` has moved. -/
structure Unmoved (g : Nat) (c₀ c : Coordinator) : Prop where
  cursors : ∀ v, v ≠ g → c.cursors[v]? = c₀.cursors[v]?
  queue : c.queue = c₀.queue
  backlogs : c.backlogs = c₀.backlogs

/-- Worker `g` need not steal, and has moved no cursor of another worker. -/
structure Harmless (g : Nat) (c₀ c : Coordinator) : Prop where
  not_steals : ∀ victim, ¬ c₀.StealsFrom g victim
  cursors : ∀ v, v ≠ g → c.cursors[v]? = c₀.cursors[v]?

/-- How far a call of worker `g` that began in `c₀` has come with a theft. -/
def Course (g : Nat) (c₀ : Coordinator) (call : Call) (c : Coordinator) : Prop :=
  match call with
  | claimOwn | popBacklog | popQueue => Unmoved g c₀ c
  | scan peer best => Unmoved g c₀ c ∧
      ∀ victim r, best = some (victim, r) → ∀ v < peer, v ≠ g → victim < v → c.remaining v < r
  | claimFrom victim amount =>
      Unmoved g c₀ c ∧ c₀.StealsFrom g victim ∧ amount = c₀.haul (c₀.remaining victim)
  | countStolen victim lo hi => ∃ k, c₀.Taken g victim k c ∧ c.queue = c₀.queue ∧ c.backlogs = c₀.backlogs ∧
      lo = k.next ∧ hi = min (k.next + c₀.haul k.remaining) k.stop
  | relinquish first rest => ∃ victim k, c₀.Taken g victim k c ∧ c.queue = c₀.queue ∧ c.backlogs = c₀.backlogs ∧
      Chunks c₀.chunkSize victim (min (k.next + c₀.haul k.remaining) k.stop) k.next (first :: rest)
  | keep first left => ∃ victim k rest, c₀.Taken g victim k c ∧
      c.queue = ⟨c₀.queue.capacity, c₀.queue.units ++ rest.take c₀.room⟩ ∧ c.backlogs = c₀.backlogs ∧
      Chunks c₀.chunkSize victim (min (k.next + c₀.haul k.remaining) k.stop) k.next (first :: rest) ∧
      left = rest.drop c₀.room
  | handOut u | finished (some u) => (∃ victim k rest, c₀.Theft g victim k u rest c) ∨ Harmless g c₀ c
  | countOwn _ _ | popQueueAgain | finished none => Harmless g c₀ c
  | failed _ => True

section

variable {g : Nat} {c₀ c c' : Coordinator} {call call' : Call}

theorem Unmoved.advance (h : Unmoved g c₀ c) {k : Cursor} (hk : c.cursors[g]? = some k) (amount : Nat) :
    Unmoved g c₀ (c.advance g k amount) where
  cursors := fun v hv => by rw [getElem?_cursors_advance hk, if_neg hv.symm, h.cursors v hv]
  queue := h.queue
  backlogs := h.backlogs

theorem Unmoved.harmless (h : Unmoved g c₀ c) (hnot : ∀ victim, ¬ c₀.StealsFrom g victim) : Harmless g c₀ c :=
  ⟨hnot, h.cursors⟩

theorem Bare.harmless (hbare : Bare g c₀) (h : Unmoved g c₀ c) : Harmless g c₀ c :=
  h.harmless fun _ hsteals => hsteals.not_bare hbare

/-- The better of two workers is the last of those that have most left. -/
theorem better_last {peer victim r v : Nat} {best : Option (Nat × Nat)}
    (hlast : ∀ victim r, best = some (victim, r) → ∀ v < peer, v ≠ g → victim < v → c.remaining v < r)
    (hbest : better best peer (c.remaining peer) = some (victim, r)) (hv : v < peer + 1) (hne : v ≠ g)
    (hlt : victim < v) : c.remaining v < r := by
  rcases best with _ | ⟨victim', most⟩
  · obtain ⟨rfl, rfl⟩ := Prod.mk.inj (Option.some.inj hbest)
    omega
  · rw [better] at hbest
    split at hbest
    · obtain ⟨rfl, rfl⟩ := Prod.mk.inj (Option.some.inj hbest)
      omega
    · next hmost =>
        obtain ⟨rfl, rfl⟩ := Prod.mk.inj (Option.some.inj hbest)
        rcases Nat.lt_succ_iff_lt_or_eq.mp hv with hv | rfl
        · exact hlast _ _ rfl v hv hne hlt
        · exact Nat.lt_of_not_le hmost

/-- What a complete scan has found is whom the worker has to steal from. -/
theorem stealsFrom_of_scan (hs : c.Sound) {peer victim r : Nat} (hpeer : c.layout.workers ≤ peer) (hr : 0 < r)
    (hne : victim ≠ g) (ht : Tells g c₀ (scan peer (some (victim, r))) c)
    (hlast : ∀ v < peer, v ≠ g → victim < v → c.remaining v < r) : c₀.StealsFrom g victim := by
  obtain ⟨hu, ⟨hown, hbacklog, hqueue⟩, hall, hbest⟩ := ht
  have hvictim : c₀.remaining victim = r := (hu.remaining victim).symm.trans (hbest _ _ rfl)
  have hexhausted : ∀ v, peer ≤ v → c.remaining v = 0 := fun v hv => hs.remaining_eq_zero (Nat.le_trans hpeer hv)
  refine ⟨(hu.remaining g).symm.trans hown, hu.backlogs ▸ hbacklog, hu.queue ▸ hqueue, hne, hvictim ▸ hr, ?_, ?_⟩
  · intro v hv
    rw [← hu.remaining v, hvictim]
    rcases Nat.lt_or_ge v peer with hlt | hge
    · obtain ⟨_, _, heq, hle⟩ := hall v hlt hv
      obtain ⟨-, rfl⟩ := Prod.mk.inj (Option.some.inj heq)
      exact hle
    · exact hexhausted v hge ▸ Nat.zero_le r
  · intro v hv hlt
    rw [← hu.remaining v, hvictim]
    rcases Nat.lt_or_ge v peer with hpeer | hge
    · exact hlast v hpeer hv hlt
    · exact hexhausted v hge ▸ hr

/-- Whoever moves the cursor that it has to steal from has taken what it passes. -/
theorem Unmoved.taken (h : Unmoved g c₀ c) {victim : Nat} {k : Cursor} (hsteals : c₀.StealsFrom g victim)
    (hk : c.cursors[victim]? = some k) : c₀.Taken g victim k (c.advance victim k (c₀.haul k.remaining)) where
  steals := hsteals
  cursor := h.cursors victim hsteals.ne ▸ hk
  cursors := fun v hv => by
    rw [getElem?_cursors_advance hk, h.cursors v hv]
    exact if_congr eq_comm rfl rfl

/-- A step keeps to the course of a call. -/
theorem Move.course (h : Move g c call call' c') (hs : c.Sound) (hf : call.Fits g c) (hlater : c₀.Later c)
    (ht : Tells g c₀ call c) (hcourse : Course g c₀ call c) : Course g c₀ call' c' := by
  have ht' := h.tells hs ht
  cases h with
  | claimOwn hk hnext =>
      refine (Unmoved.advance hcourse hk _).harmless fun victim hsteals => ?_
      have hown := (ht.remaining g).trans hsteals.own
      rw [remaining_eq hk] at hown
      exact Nat.ne_of_gt (Nat.sub_pos_of_lt hnext) hown
  | ownExhausted hk => exact Unmoved.advance hcourse hk _
  | countOwn => exact .inr ⟨hcourse.not_steals, hcourse.cursors⟩
  | popBacklog hb =>
      refine .inr ⟨fun victim hsteals => ?_, hcourse.cursors⟩
      rw [ht.1.backlogs, hsteals.backlog] at hb
      exact Array.push_ne_empty (Option.some.inj hb).symm
  | backlogEmpty => exact hcourse
  | popQueue hq =>
      refine .inr ⟨fun victim hsteals => ?_, hcourse.cursors⟩
      rw [ht.1.queue, hsteals.queue] at hq
      cases hq
  | queueEmpty => exact ⟨hcourse, nofun⟩
  | @scanSelf best hg =>
      refine ⟨hcourse.1, fun victim r hbest v hv hne hlt => hcourse.2 victim r hbest v ?_ hne hlt⟩
      omega
  | scan hpeer =>
      exact ⟨hcourse.1, fun victim r hbest v hv hne hlt => better_last hcourse.2 hbest hv hne hlt⟩
  | alone => exact Bare.harmless ht' hcourse.1
  | allExhausted => exact Bare.harmless ht'.1 hcourse.1
  | @choose peer victim r hpeer hr =>
      have hvictim : c₀.remaining victim = r := (ht.1.remaining victim).symm.trans (ht.2.2.2 victim r rfl)
      refine ⟨hcourse.1, stealsFrom_of_scan hs hpeer hr (hf.2.2 _ _ rfl).2.1 ht (hcourse.2 _ _ rfl), ?_⟩
      rw [chunksToSteal_eq _ hs.chunk_pos hr, hvictim, hlater.chunkSize, hlater.stealBatch, haul]
  | popQueueAgain => exact .inr ⟨hcourse.not_steals, hcourse.cursors⟩
  | giveUp => exact hcourse
  | @claimFrom victim amount k hk hnext =>
      obtain ⟨hunmoved, hsteals, rfl⟩ := hcourse
      have hk₀ : c₀.cursors[victim]? = some k := hunmoved.cursors victim hsteals.ne ▸ hk
      rw [remaining_eq hk₀]
      exact ⟨k, hunmoved.taken hsteals hk, hunmoved.queue, hunmoved.backlogs, rfl, rfl⟩
  | @missed victim amount k hk hnext =>
      have hpos := ht.2
      rw [remaining_eq hk] at hpos
      exact absurd (Nat.sub_eq_zero_of_le hnext) (Nat.ne_of_gt hpos)
  | @countStolen victim lo hi first rest hunits =>
      obtain ⟨k, htaken, hqueue, hbacklogs, rfl, rfl⟩ := hcourse
      refine ⟨victim, k, ⟨htaken.steals, htaken.cursor, htaken.cursors⟩, hqueue, hbacklogs, ?_⟩
      rw [← hunits, hlater.chunkSize]
      exact chunks_units (hlater.chunkSize ▸ hs.chunk_pos) (Nat.lt_of_le_of_lt hf.2 hs.vertexCount_lt) hf.1
  | @relinquish first rest hroom =>
      obtain ⟨victim, k, htaken, hqueue, hbacklogs, hchunks⟩ := hcourse
      have hsame : c.room = c₀.room := by rw [room, hqueue, room]
      refine .inl ⟨victim, k, rest, { htaken with chunks := hchunks, queue := ?_, backlogs := fun v => ?_ }⟩
      · show WorkQueue.mk c.queue.capacity (c.queue.units ++ rest) = _
        rw [List.take_of_length_le (hsame ▸ hroom), hqueue]
      · show c.backlogs[v]? = _
        rw [List.drop_of_length_le (hsame ▸ hroom), hbacklogs]
        split
        · next heq => rw [heq, htaken.steals.backlog]
        · rfl
  | @overflow first rest =>
      obtain ⟨victim, k, htaken, hqueue, hbacklogs, hchunks⟩ := hcourse
      have hsame : c.room = c₀.room := by rw [room, hqueue, room]
      refine ⟨victim, k, rest, ⟨htaken.steals, htaken.cursor, htaken.cursors⟩, ?_, hbacklogs, hchunks, by rw [hsame]⟩
      show WorkQueue.mk c.queue.capacity (c.queue.units ++ rest.take c.room) = _
      rw [hqueue, hsame]
  | @keep first left b hb =>
      obtain ⟨victim, k, rest, htaken, hqueue, hbacklogs, hchunks, rfl⟩ := hcourse
      refine .inl ⟨victim, k, rest, { htaken with chunks := hchunks, queue := hqueue, backlogs := fun v => ?_ }⟩
      have hempty : b = #[] := by
        rw [hbacklogs, htaken.steals.backlog] at hb
        exact (Option.some.inj hb).symm
      rw [getElem?_backlogs_setBacklog hb, hempty, Array.empty_append, hbacklogs]
      exact if_congr eq_comm rfl rfl
  | handOut =>
      rcases hcourse with ⟨victim, k, rest, htheft⟩ | hharmless
      · exact .inl ⟨victim, k, rest, { htheft with }⟩
      · exact .inr ⟨hharmless.not_steals, hharmless.cursors⟩

end

end Call

namespace Coordinator

variable {c : Coordinator} {g rank worker : Nat}

/-- A call steals if it has to, and if not it moves no cursor of another worker. -/
theorem getLoop_steals (hs : c.Sound) (hg : c.globalWorker rank worker = .ok g)
    (hwrap : Call.runWraps g (Call.maxSteps c.cursors.size) .claimOwn c = false) :
    (∃ victim k first rest c', c.getLoop rank worker = (.ok (some first), c') ∧ c.Theft g victim k first rest c') ∨
      Call.Harmless g c (c.getLoop rank worker).2 := by
  obtain ⟨u, c', hcomplete, -, -, -, hcourse⟩ := complete_eq_ok
    (Q := fun call c' => c.Later c' ∧ Call.Tells g c call c' ∧ Call.Course g c call c')
    (fun hs hf ⟨hlater, htells, hcourse⟩ hmove =>
      ⟨hlater.trans hmove.later, hmove.tells hs htells, hmove.course hs hf hlater htells hcourse⟩)
    hs (globalWorker_lt hg) (show Call.claimOwn.Fits g c from trivial) rfl
    ⟨.refl c, ⟨rfl, rfl, fun _ => rfl⟩, ⟨fun _ _ => rfl, rfl, rfl⟩⟩ hwrap
  have heq : c.getLoop rank worker = (.ok u, c') := by
    rw [getLoop, hg]
    exact hcomplete
  cases u with
  | none => exact .inr (heq ▸ hcourse)
  | some u =>
      rcases hcourse with ⟨victim, k, rest, htheft⟩ | hharmless
      · exact .inl ⟨victim, k, u, rest, c', heq, htheft⟩
      · exact .inr (heq ▸ hharmless)

end Coordinator

namespace Service

variable {n chunkSize queueCapacity stealBatch : Nat} {layout : Layout} {c : Coordinator}

/-- Each unit that is handed out holds some vertices, at most a chunk, out of the slice of its owner, however the
calls are interleaved. And after any sequence of calls in which nothing is put into the queue from outside, a call of
a worker that has to steal gets the first unit of what it takes and puts the others away; the cursor of another worker
moves in no other call. -/
theorem run_units_and_thefts (hn : n < 2 ^ 32)
    (hc : Coordinator.start n layout chunkSize queueCapacity stealBatch = .ok c) :
    (∀ schedule, (Crew.start c).runWraps schedule = false →
      ∀ u ∈ ((Crew.start c).run schedule).received, u.InSlice n chunkSize layout) ∧
    ∀ requests : List Request, (∀ r ∈ requests, ∀ units, r ≠ .setLoop units) → (start c).runWraps requests = false →
      let s := (start c).run requests
      (∀ u ∈ s.handed, u.InSlice n chunkSize layout) ∧
        (s.shared.chunkSize = chunkSize ∧ s.shared.stealBatch = stealBatch ∧ s.shared.layout = layout) ∧
        ∀ rank worker g, s.shared.globalWorker rank worker = .ok g → s.wraps (.getLoop rank worker) = false →
          (∀ victim, s.shared.StealsFrom g victim → ∃ k first rest c',
            s.shared.getLoop rank worker = (.ok (some first), c') ∧ s.shared.Theft g victim k first rest c' ∧
              k.stop = (staticSplit n layout victim).2) ∧
          ∀ v, v ≠ g → (s.shared.getLoop rank worker).2.cursors[v]? ≠ s.shared.cursors[v]? →
            s.shared.StealsFrom g v := by
  have haligned := aligned_of_start hc
  refine ⟨fun schedule hwrap => ?_, fun requests hrequests hwrap => ?_⟩
  · exact (Crew.Sliced.run schedule (Crew.sliced_start hc) (Crew.sound_start hn hc) hwrap).received
  intro s
  have hsliced : s.Sliced n chunkSize layout c :=
    Sliced.run haligned requests (sliced_start hc) (sound_start hn hc) hrequests hwrap
  have hs : s.Sound n := Sound.run requests (sound_start hn hc) hwrap
  refine ⟨hsliced.handed, ?_, fun rank worker g hg hcall => ?_⟩
  · obtain ⟨-, -, -, rfl⟩ := start_eq_ok hc
    exact ⟨hsliced.later.chunkSize, hsliced.later.stealBatch, hsliced.later.layout⟩
  · rw [wraps, hg] at hcall
    rcases getLoop_steals hs.shared hg hcall with ⟨victim, k, first, rest, c', heq, htheft⟩ | hharmless
    · refine ⟨fun victim' hsteals => ?_, fun v hv hmoved => ?_⟩
      · obtain rfl := htheft.steals.unique hsteals
        exact ⟨k, first, rest, c', heq, htheft, ((haligned.later hsliced.later).cursor victim k htheft.cursor).2⟩
      · rw [heq, htheft.cursors v hv] at hmoved
        by_cases hvictim : v = victim
        · exact hvictim ▸ htheft.steals
        · exact absurd (if_neg hvictim) hmoved
    · exact ⟨fun victim hsteals => absurd hsteals (hharmless.not_steals victim),
        fun v hv hmoved => absurd (hharmless.cursors v hv) hmoved⟩

/-- A worker that has gone through its six vertices steals half of the other six: the first is for itself, the second
fills the queue, and the third is kept. If both workers are at work, all twelve are handed out. -/
theorem run_units_and_thefts_two : ∃ c schedule requests k rest c', Coordinator.start 12 ⟨1, 2⟩ 1 1 4 = .ok c ∧
    (∀ r ∈ requests, ∀ units, r ≠ Request.setLoop units) ∧ (start c).runWraps requests = false ∧
      (∀ u ∈ ((start c).run requests).handed, u.InSlice 12 1 ⟨1, 2⟩) ∧
      ((start c).run requests).shared.getLoop 0 0 = (.ok (some ⟨6, 7, 1⟩), c') ∧
      ((start c).run requests).shared.Theft 0 1 k ⟨6, 7, 1⟩ rest c' ∧
      c'.queue.units = [⟨7, 8, 1⟩] ∧ c'.backlogs[0]? = some #[⟨8, 9, 1⟩] ∧
      (Crew.start c).runWraps schedule = false ∧ ((Crew.start c).run schedule).received.length = 12 ∧
      ∀ u ∈ ((Crew.start c).run schedule).received, u.InSlice 12 1 ⟨1, 2⟩ := by
  let c : Coordinator :=
    { vertexCount := 12, layout := ⟨1, 2⟩, chunkSize := 1, stealBatch := 4
      cursors := #[⟨0, 6⟩, ⟨6, 12⟩], backlogs := #[#[], #[]], queue := ⟨1, []⟩
      produced := 0, claimed := 0, results := #[none], reported := 0 }
  let requests : List Request := List.replicate 6 (.getLoop 0 0)
  let schedule : List Nat := (List.replicate 36 [0, 0, 1]).flatten
  have hc : Coordinator.start 12 ⟨1, 2⟩ 1 1 4 = .ok c := by decide +kernel
  have hrequests : ∀ r ∈ requests, ∀ units, r ≠ Request.setLoop units := fun r hr units => by
    rw [List.eq_of_mem_replicate hr]
    nofun
  have hwrap : (start c).runWraps requests = false := by decide +kernel
  have hcrew : (Crew.start c).runWraps schedule = false := by decide +kernel
  have hlength : ((Crew.start c).run schedule).received.length = 12 := by decide +kernel
  obtain ⟨hreceived, hserved⟩ := run_units_and_thefts (by decide) hc
  obtain ⟨hslices, -, hcalls⟩ := hserved requests hrequests hwrap
  obtain ⟨hthefts, hmoved⟩ := hcalls 0 0 0 (by decide +kernel) (by decide +kernel)
  obtain ⟨k, first, rest, c', heq, htheft, -⟩ := hthefts 1 (hmoved 1 (by decide) (by decide +kernel))
  have hfirst : (((start c).run requests).shared.getLoop 0 0).1 = .ok (some ⟨6, 7, 1⟩) := by decide +kernel
  have hqueue : (((start c).run requests).shared.getLoop 0 0).2.queue.units = [⟨7, 8, 1⟩] := by decide +kernel
  have hbacklog : (((start c).run requests).shared.getLoop 0 0).2.backlogs[0]? = some #[⟨8, 9, 1⟩] := by
    decide +kernel
  rw [heq] at hfirst hqueue hbacklog
  obtain rfl := Option.some.inj (Except.ok.inj hfirst)
  exact ⟨c, schedule, requests, k, rest, c', hc, hrequests, hwrap, hslices, heq, htheft, hqueue, hbacklog, hcrew,
    hlength, hreceived schedule hcrew⟩

end Service

end PatternCount
