import PatternCount.Work.SpinLock

/-!
# Threads that contend for a lock

A `Contest` is a spin lock with the acquisitions that threads are making and the guards that are out. `Contest.run`
carries out any sequence of turns, so that the runs of a contest are all the ways in which the steps of acquisitions
can be interleaved with each other and with the use of guards. A guard is used by reading the value and by writing it,
each a turn of its own: a change is worked out from what has been read, so that a change by somebody else in between
would be lost. Who uses a guard is left open, and a thread that has one may try to get another.

What each turn keeps is `Contest.Sound`: the flag is clear and no guard is out, or it is set and one guard is out, which
is that of the last acquisition, and what has been read through it is still the value. An acquisition that has seen the
flag clear knows nothing (`Acquire.step_cases`): it only gets the lock by an exchange that finds the flag clear, however
long ago it has looked. So the changes are written acquisition by acquisition, and the value is what they make, one
after the other, of the value at the start (`Contest.run_exclusive`).
-/

namespace PatternCount

/-! ## The machine -/

/-- What whoever has got the lock gives back when the lock is released. -/
structure LockGuard (α : Type) where
  /-- How many acquisitions came before. -/
  ticket : Nat
  /-- What has been read through the guard, and the change of it that is about to be written. -/
  pending : Option (α × (α → α))

structure Contest (α : Type) where
  lock : SpinLock α
  /-- For each thread the acquisition that it is making, if it is making one. -/
  calls : List (Option Acquire)
  /-- The guards that are out. -/
  guards : List (LockGuard α)
  /-- For each acquisition that has got the lock, in order, the changes written through its guard. -/
  grants : List (List (α → α))
  /-- All changes, in the order in which they were written. -/
  written : List (α → α)

namespace Contest

variable {α : Type}

/-- Whose turn it is: that of a thread, which begins an acquisition or makes its next step, or that of a guard. -/
inductive Turn (α : Type) where
  | lock (thread : Nat)
  | tryLock (thread : Nat)
  | advance (thread : Nat) (spurious : Bool)
  | read (guard : Nat) (change : α → α)
  | write (guard : Nat)
  | drop (guard : Nat)

/-- So many threads, none of which has begun to acquire the lock. -/
def start (value : α) (threads : Nat) : Contest α := ⟨.free value, List.replicate threads none, [], [], []⟩

variable (s : Contest α)

def begin (thread : Nat) (a : Acquire) : Contest α :=
  match s.calls[thread]? with
  | some none => { s with calls := s.calls.set thread (some a) }
  | _ => s

/-- The acquisition of a thread ends with a guard. -/
def grant (thread : Nat) (l : SpinLock α) : Contest α :=
  { s with
    lock := l
    calls := s.calls.set thread none
    guards := s.guards ++ [⟨s.grants.length, none⟩]
    grants := s.grants ++ [[]] }

/-- The acquisition of a thread ends without one. -/
def refuse (thread : Nat) : Contest α := { s with calls := s.calls.set thread none }

def advance (thread : Nat) (spurious : Bool) : Contest α :=
  match s.calls[thread]? with
  | some (some a) =>
      match a.step spurious s.lock with
      | (.acquired, l) => s.grant thread l
      | (.refused, l) => { s with lock := l }.refuse thread
      | (a, l) => { s with lock := l, calls := s.calls.set thread (some a) }
  | _ => s

def read (guard : Nat) (change : α → α) : Contest α :=
  { s with guards := s.guards.modify guard fun g => { g with pending := some (s.lock.value, change) } }

/-- Writes what the change makes of what has been read. -/
def write (guard : Nat) : Contest α :=
  match s.guards[guard]? with
  | some ⟨ticket, some (seen, change)⟩ =>
      { s with
        lock := s.lock.set (change seen)
        guards := s.guards.set guard ⟨ticket, none⟩
        grants := s.grants.modify ticket (· ++ [change])
        written := s.written ++ [change] }
  | _ => s

def drop (guard : Nat) : Contest α :=
  match s.guards[guard]? with
  | some _ => { s with lock := s.lock.release, guards := s.guards.eraseIdx guard }
  | none => s

def step : Turn α → Contest α
  | .lock thread => s.begin thread .exchange
  | .tryLock thread => s.begin thread .attempt
  | .advance thread spurious => s.advance thread spurious
  | .read guard change => s.read guard change
  | .write guard => s.write guard
  | .drop guard => s.drop guard

def run (schedule : List (Turn α)) : Contest α := schedule.foldl step s

end Contest

/-! ## Single steps -/

section Steps

variable {α : Type} {l : SpinLock α} {a : Acquire}

theorem SpinLock.exchange_of_clear (h : l.locked = false) : l.exchange = (true, { l with locked := true }) := by
  rw [exchange, h]
  rfl

theorem SpinLock.exchange_of_set (h : l.locked = true) : l.exchange = (false, l) := by
  rw [exchange, if_pos h]

theorem SpinLock.tryLock_iff : l.tryLock.1 = true ↔ l.locked = false := by
  rw [tryLock, Acquire.step]
  cases hlocked : l.locked with
  | false => simp only [exchange_of_clear hlocked]
  | true => simp only [exchange_of_set hlocked, Bool.false_eq_true, Bool.true_eq_false]

/-- A step of an acquisition finds the flag clear and sets it, or leaves the lock as it is and does not get it. -/
theorem Acquire.step_cases (ha : a ≠ .acquired) (spurious : Bool) :
    (l.locked = false ∧ a.step spurious l = (.acquired, { l with locked := true })) ∨
      ∃ a', a' ≠ .acquired ∧ a.step spurious l = (a', l) := by
  have hexchange : (l.locked = false ∧ l.exchange = (true, { l with locked := true })) ∨ l.exchange = (false, l) := by
    cases hlocked : l.locked with
    | false => exact .inl ⟨rfl, SpinLock.exchange_of_clear hlocked⟩
    | true => exact .inr (SpinLock.exchange_of_set hlocked)
  cases a with
  | exchange =>
      rcases hexchange with ⟨hclear, hgot⟩ | hmissed
      · exact .inl ⟨hclear, by rw [step, hgot]⟩
      · exact .inr ⟨.watch, nofun, by rw [step, hmissed]⟩
  | watch =>
      refine .inr ⟨if l.locked then .watch else .weakExchange, ?_, rfl⟩
      split
      · nofun
      · nofun
  | weakExchange =>
      cases spurious with
      | true => exact .inr ⟨.watch, nofun, rfl⟩
      | false =>
          rcases hexchange with ⟨hclear, hgot⟩ | hmissed
          · exact .inl ⟨hclear, by rw [step, if_neg Bool.false_ne_true, hgot]⟩
          · exact .inr ⟨.watch, nofun, by rw [step, if_neg Bool.false_ne_true, hmissed]⟩
  | attempt =>
      rcases hexchange with ⟨hclear, hgot⟩ | hmissed
      · exact .inl ⟨hclear, by rw [step, hgot]⟩
      · exact .inr ⟨.refused, nofun, by rw [step, hmissed]⟩
  | acquired => exact (ha rfl).elim
  | refused => exact .inr ⟨.refused, nofun, rfl⟩

end Steps

namespace Contest

variable {α : Type} {value : α} {s : Contest α}

/-! ## What a run keeps -/

/-- What the changes make of the value, one after the other. -/
def outcome (value : α) (changes : List (α → α)) : α := changes.foldl (fun v change => change v) value

/-- The only guard that is out is that of the last acquisition, and nobody has changed the value behind its back. -/
structure Held (s : Contest α) (g : LockGuard α) : Prop where
  locked : s.lock.locked = true
  guards : s.guards = [g]
  latest : ∃ earlier last, s.grants = earlier ++ [last] ∧ g.ticket = earlier.length
  seen : ∀ seen change, g.pending = some (seen, change) → seen = s.lock.value

structure Sound (value : α) (s : Contest α) : Prop where
  guarded : (s.lock.locked = false ∧ s.guards = []) ∨ ∃ g, s.Held g
  calling : some .acquired ∉ s.calls
  inOrder : s.grants.flatten = s.written
  value_eq : s.lock.value = outcome value s.written

theorem modify_length_append {β : Type} (xs : List β) (x : β) (f : β → β) :
    (xs ++ [x]).modify xs.length f = xs ++ [f x] := by
  induction xs with
  | nil => rfl
  | cons y ys ih => rw [List.cons_append, List.length_cons, List.modify_succ_cons, ih, List.cons_append]

theorem sound_start (value : α) (threads : Nat) : (start value threads).Sound value where
  guarded := .inl ⟨rfl, rfl⟩
  calling := fun h => nomatch (List.mem_replicate.mp h).2
  inOrder := rfl
  value_eq := rfl

/-- Acquisitions that have not got the lock are no concern of the guards. -/
theorem Sound.setCall (h : s.Sound value) (thread : Nat) (call : Option Acquire) (hcall : call ≠ some .acquired) :
    Sound value { s with calls := s.calls.set thread call } where
  guarded := h.guarded.imp id fun ⟨g, hg⟩ => ⟨g, hg.locked, hg.guards, hg.latest, hg.seen⟩
  calling := fun hmem => (List.mem_or_eq_of_mem_set hmem).elim h.calling fun heq => hcall heq.symm
  inOrder := h.inOrder
  value_eq := h.value_eq

theorem Sound.begin (h : s.Sound value) (thread : Nat) (a : Acquire) (ha : a ≠ .acquired) :
    (s.begin thread a).Sound value := by
  unfold Contest.begin
  split
  · exact h.setCall thread (some a) fun heq => ha (Option.some.inj heq)
  · exact h

/-- Where the flag is clear no guard is out, and the next one is that of the last acquisition. -/
theorem Sound.grant (h : s.Sound value) (hlocked : s.lock.locked = false) (thread : Nat) :
    (s.grant thread { s.lock with locked := true }).Sound value where
  guarded := by
    rcases h.guarded with ⟨-, hguards⟩ | ⟨g, hg⟩
    · refine .inr ⟨⟨s.grants.length, none⟩, rfl, ?_, ⟨s.grants, [], rfl, rfl⟩, nofun⟩
      rw [Contest.grant, hguards, List.nil_append]
    · rw [hg.locked] at hlocked
      cases hlocked
  calling := fun hmem => (List.mem_or_eq_of_mem_set hmem).elim h.calling nofun
  inOrder := by
    rw [Contest.grant, List.flatten_append, h.inOrder]
    exact List.append_nil _
  value_eq := h.value_eq

theorem Sound.advance (h : s.Sound value) (thread : Nat) (spurious : Bool) :
    (s.advance thread spurious).Sound value := by
  unfold Contest.advance
  split
  · next a hcall =>
      have ha : a ≠ .acquired := by
        rintro rfl
        exact h.calling (List.mem_of_getElem? hcall)
      rcases Acquire.step_cases (l := s.lock) ha spurious with ⟨hlocked, hstep⟩ | ⟨a', ha', hstep⟩
      · rw [hstep]
        exact h.grant hlocked thread
      · rw [hstep]
        cases a' with
        | acquired => exact (ha' rfl).elim
        | refused => exact h.setCall thread none nofun
        | exchange => exact h.setCall thread (some .exchange) nofun
        | watch => exact h.setCall thread (some .watch) nofun
        | weakExchange => exact h.setCall thread (some .weakExchange) nofun
        | attempt => exact h.setCall thread (some .attempt) nofun
  · exact h

/-- A guard that is found among those that are out is the only one. -/
theorem Sound.held (h : s.Sound value) {i : Nat} {g : LockGuard α} (hg : s.guards[i]? = some g) :
    i = 0 ∧ s.Held g := by
  rcases h.guarded with ⟨-, hguards⟩ | ⟨g', hheld⟩
  · rw [hguards] at hg
    cases hg
  · rw [hheld.guards] at hg
    cases i with
    | zero => exact ⟨rfl, Option.some.inj hg ▸ hheld⟩
    | succ i => cases hg

theorem Sound.read (h : s.Sound value) (guard : Nat) (change : α → α) : (s.read guard change).Sound value where
  guarded := by
    unfold Contest.read
    cases hg : s.guards[guard]? with
    | none =>
        rw [List.modify_eq_self (List.getElem?_eq_none_iff.mp hg)]
        exact h.guarded
    | some g =>
        obtain ⟨rfl, hheld⟩ := h.held hg
        refine .inr ⟨{ g with pending := some (s.lock.value, change) }, hheld.locked, ?_, hheld.latest, ?_⟩
        · show s.guards.modify 0 _ = _
          rw [hheld.guards]
          rfl
        · intro seen change' hpending
          exact (Prod.mk.inj (Option.some.inj hpending)).1.symm
  calling := h.calling
  inOrder := h.inOrder
  value_eq := h.value_eq

/-- What is written is made of the value as it is, and counts for the last acquisition. -/
theorem Sound.write (h : s.Sound value) (guard : Nat) : (s.write guard).Sound value := by
  unfold Contest.write
  split
  · next ticket seen change hg =>
      obtain ⟨rfl, hheld⟩ := h.held hg
      obtain ⟨earlier, last, hgrants, hticket⟩ := hheld.latest
      -- Nobody has written since the value was read, and nobody has got the lock since.
      have hseen : seen = s.lock.value := hheld.seen seen change rfl
      replace hticket : ticket = earlier.length := hticket
      have hmodify : s.grants.modify ticket (· ++ [change]) = earlier ++ [last ++ [change]] := by
        rw [hgrants, hticket, modify_length_append]
      constructor
      case guarded =>
        refine .inr ⟨⟨ticket, none⟩, hheld.locked, ?_, ⟨earlier, last ++ [change], hmodify, hticket⟩, nofun⟩
        show s.guards.set 0 _ = _
        rw [hheld.guards]
        rfl
      case calling => exact h.calling
      case inOrder =>
        show (s.grants.modify ticket (· ++ [change])).flatten = s.written ++ [change]
        rw [hmodify, ← h.inOrder, hgrants]
        simp only [List.flatten_append, List.flatten_cons, List.flatten_nil, List.append_nil, List.append_assoc]
      case value_eq =>
        show change seen = outcome value (s.written ++ [change])
        rw [hseen, h.value_eq, outcome, outcome, List.foldl_append]
        rfl
  · exact h

theorem Sound.drop (h : s.Sound value) (guard : Nat) : (s.drop guard).Sound value := by
  unfold Contest.drop
  split
  · next g hg =>
      obtain ⟨rfl, hheld⟩ := h.held hg
      refine ⟨.inl ⟨rfl, ?_⟩, h.calling, h.inOrder, h.value_eq⟩
      show s.guards.eraseIdx 0 = []
      rw [hheld.guards]
      rfl
  · exact h

theorem Sound.step (h : s.Sound value) (turn : Turn α) : (s.step turn).Sound value := by
  cases turn with
  | lock thread => exact h.begin thread .exchange nofun
  | tryLock thread => exact h.begin thread .attempt nofun
  | advance thread spurious => exact h.advance thread spurious
  | read guard change => exact h.read guard change
  | write guard => exact h.write guard
  | drop guard => exact h.drop guard

theorem Sound.run (h : s.Sound value) (schedule : List (Turn α)) : (s.run schedule).Sound value := by
  induction schedule generalizing s with
  | nil => exact h
  | cons turn rest ih => exact ih (h.step turn)

/-! ## Consequences -/

theorem Sound.locked_iff (h : s.Sound value) : s.lock.locked = true ↔ s.guards.length = 1 := by
  rcases h.guarded with ⟨hlocked, hguards⟩ | ⟨g, hg⟩
  · simp [hlocked, hguards]
  · simp [hg.locked, hg.guards]

theorem Sound.clear_iff (h : s.Sound value) : s.lock.locked = false ↔ s.guards = [] := by
  rcases h.guarded with ⟨hlocked, hguards⟩ | ⟨g, hg⟩
  · exact iff_of_true hlocked hguards
  · simp [hg.locked, hg.guards]

/-- The only exchange of an acquisition that does not wait gets the lock just if no guard is out. -/
theorem Sound.advance_attempt (h : s.Sound value) {thread : Nat} (hcall : s.calls[thread]? = some (some .attempt))
    (spurious : Bool) :
    (s.guards = [] → s.advance thread spurious = s.grant thread { s.lock with locked := true }) ∧
      (s.guards ≠ [] → s.advance thread spurious = s.refuse thread) := by
  simp only [Contest.advance, hcall, Acquire.step]
  constructor
  · intro hguards
    rw [SpinLock.exchange_of_clear (h.clear_iff.mpr hguards)]
  · intro hguards
    have hlocked : s.lock.locked = true := Bool.of_not_eq_false fun hclear => hguards (h.clear_iff.mp hclear)
    rw [SpinLock.exchange_of_set hlocked]

/-- However the steps of any number of acquisitions are interleaved, and whenever guards are used and dropped, no more
than one guard is out, and the flag is set just while one is. An acquisition that does not wait gets the lock just if no
guard is out. The value is what the changes make of that at the start, acquisition by acquisition; these are all changes
that have been written, and what has been read through a guard is the value still. -/
theorem run_exclusive (value : α) (threads : Nat) (schedule : List (Turn α)) :
    let s := (start value threads).run schedule
    s.guards.length ≤ 1 ∧ (s.lock.locked = true ↔ s.guards.length = 1) ∧
      (s.lock.tryLock.1 = true ↔ s.guards = []) ∧
      (∀ thread spurious, s.calls[thread]? = some (some .attempt) →
        (s.guards = [] → s.step (.advance thread spurious) = s.grant thread { s.lock with locked := true }) ∧
          (s.guards ≠ [] → s.step (.advance thread spurious) = s.refuse thread)) ∧
      s.lock.value = outcome value s.grants.flatten ∧ s.grants.flatten = s.written ∧
      ∀ g ∈ s.guards, ∀ seen change, g.pending = some (seen, change) → seen = s.lock.value := by
  intro s
  have h : s.Sound value := (sound_start value threads).run schedule
  refine ⟨?_, h.locked_iff, SpinLock.tryLock_iff.trans h.clear_iff,
    fun thread spurious hcall => h.advance_attempt hcall spurious, h.inOrder ▸ h.value_eq, h.inOrder, ?_⟩
  · rcases h.guarded with ⟨-, hguards⟩ | ⟨g, hg⟩
    · simp [hguards]
    · simp [hg.guards]
  · intro g hg
    obtain ⟨i, hi⟩ := List.getElem?_of_mem hg
    exact (h.held hi).2.seen

/-- Three threads and two changes. The second thread sees the flag clear and comes too late with its exchange, so that
it watches again; the third one does not wait, and finds the lock held for the second change. -/
theorem run_exclusive_three : ∃ s : Contest Nat,
    s = (start 5 3).run [.lock 0, .advance 0 false, .lock 1, .advance 1 false, .read 0 (· + 1), .write 0, .drop 0,
      .advance 1 false, .lock 0, .advance 0 false, .advance 1 false, .read 0 (· * 2), .write 0, .tryLock 2] ∧
    s.calls = [none, some .watch, some .attempt] ∧ s.grants.map List.length = [1, 1] ∧ s.lock.locked = true ∧
    s.guards.length = 1 ∧ s.step (.advance 2 true) = s.refuse 2 ∧ outcome 5 s.grants.flatten = 12 := by
  let schedule : List (Turn Nat) :=
    [.lock 0, .advance 0 false, .lock 1, .advance 1 false, .read 0 (· + 1), .write 0, .drop 0, .advance 1 false,
      .lock 0, .advance 0 false, .advance 1 false, .read 0 (· * 2), .write 0, .tryLock 2]
  obtain ⟨-, hlocked, -, hattempt, hvalue, -⟩ := run_exclusive 5 3 schedule
  have hset : ((start 5 3).run schedule).lock = ⟨true, 12⟩ := by decide
  have hguards : ((start 5 3).run schedule).guards.length = 1 := hlocked.mp (by rw [hset])
  have hout : ((start 5 3).run schedule).guards ≠ [] := List.ne_nil_of_length_pos (hguards ▸ Nat.one_pos)
  refine ⟨_, rfl, by decide, by decide, by rw [hset], hguards, (hattempt 2 true (by decide)).2 hout, ?_⟩
  rw [← hvalue, hset]

end Contest

end PatternCount
