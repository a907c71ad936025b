import PatternCount.Word

/-!
# A spin lock

A `SpinLock` is a flag and the value that it protects. Whoever sets the flag from clear to set holds the lock
and may change the value, until it clears the flag again. Setting it is one indivisible exchange; a waiter
watches the flag and tries an exchange when it sees it clear. That exchange is a weak one: it may fail even
then. `Acquire.step` makes one step of an acquisition, so that those of several threads can be interleaved.
-/

namespace PatternCount

/-- A value and the flag that is set while someone holds the lock. -/
structure SpinLock (α : Type) where
  locked : Bool
  value : α
deriving DecidableEq, Repr

/-- Where an acquisition stands. -/
inductive Acquire where
  | exchange
  | watch
  /-- The flag was clear when last seen; about to try a weak exchange. -/
  | weakExchange
  /-- About to try the only exchange of one that does not wait. -/
  | attempt
  | acquired
  /-- One that does not wait has found the lock held. -/
  | refused
deriving DecidableEq, Repr

namespace SpinLock

variable {α : Type}

def free (value : α) : SpinLock α := ⟨false, value⟩

/-- Sets the flag if it is clear, and tells whether it was. -/
def exchange (l : SpinLock α) : Bool × SpinLock α :=
  if l.locked then (false, l) else (true, { l with locked := true })

def release (l : SpinLock α) : SpinLock α := { l with locked := false }

def set (l : SpinLock α) (value : α) : SpinLock α := { l with value }

end SpinLock

namespace Acquire

variable {α : Type}

/-- The next step of an acquisition, and the lock after it. A weak exchange that is `spurious` fails whatever
the flag says. -/
def step (spurious : Bool) (a : Acquire) (l : SpinLock α) : Acquire × SpinLock α :=
  match a with
  | exchange =>
      match l.exchange with
      | (true, l) => (acquired, l)
      | (false, l) => (watch, l)
  | watch => (if l.locked then watch else weakExchange, l)
  | weakExchange =>
      if spurious then (watch, l)
      else
        match l.exchange with
        | (true, l) => (acquired, l)
        | (false, l) => (watch, l)
  | attempt =>
      match l.exchange with
      | (true, l) => (acquired, l)
      | (false, l) => (refused, l)
  | acquired => (acquired, l)
  | refused => (refused, l)

end Acquire

namespace SpinLock

variable {α : Type}

def tryLock (l : SpinLock α) : Bool × SpinLock α :=
  match Acquire.attempt.step false l with
  | (.acquired, l) => (true, l)
  | (_, l) => (false, l)

/-- One change of the value under the lock, made when nobody holds it. -/
def guarded (change : α → Except Fault α) (l : SpinLock α) : Except Fault (SpinLock α) := do
  match Acquire.exchange.step false l with
  | (.acquired, l) => return (l.set (← change l.value)).release
  | (_, l) => return l

/-- That many changes of the value, each under the lock. -/
def guardedTimes (change : α → Except Fault α) : (times : Nat) → SpinLock α → Except Fault (SpinLock α)
  | 0, l => .ok l
  | times + 1, l => do guardedTimes change times (← l.guarded change)

end SpinLock

end PatternCount
