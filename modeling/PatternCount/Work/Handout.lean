import PatternCount.Work.Coordinator

/-!
# Handing out work

A worker that asks for work first claims a chunk of its own slice. If nothing is left there it takes the last
unit of its backlog, then the oldest unit of the queue, and at last steals: it looks at what all other
workers have left, claims about half the chunks of the one that has most, keeps the first and puts the others
into the queue, and those that find no room there into its own backlog.

A call is a sequence of steps, each with one operation on the shared state, so that calls of several workers
can be interleaved step by step: `Call` says where a call stands, and `Call.step` makes its next step.
`Coordinator.getLoop` is a call that is not interleaved with any other.
-/

namespace PatternCount

/-- Where a call for work stands. -/
inductive Call where
  | claimOwn
  | countOwn (lo hi : Nat)
  | popBacklog
  | popQueue
  /-- About to look at what a worker has left; of those before it that could be stolen from, `best` is the last
  that has most. -/
  | scan (peer : Nat) (best : Option (Nat × Nat))
  /-- Nobody has anything left; about to look into the queue once more. -/
  | popQueueAgain
  | claimFrom (victim amount : Nat)
  | countStolen (victim lo hi : Nat)
  /-- About to put the stolen units but the first into the queue. -/
  | relinquish (first : WorkUnit) (rest : List WorkUnit)
  /-- About to put the units that found no room into the backlog. -/
  | keep (first : WorkUnit) (left : List WorkUnit)
  | handOut (unit : WorkUnit)
  | finished (unit : Option WorkUnit)
  | failed (fault : Fault)
deriving DecidableEq, Repr

namespace Call

/-- The unit of some vertices. Vertex numbers keep their low 32 bits. -/
def unitOf (lo hi owner : Nat) : WorkUnit := ⟨Word.truncate32 lo, Word.truncate32 hi, owner⟩

/-- A range cut into `count` units of the chunk size, which cover it; the last may be shorter. -/
def cut (chunkSize hi owner : Nat) : (count lo : Nat) → List WorkUnit
  | 0, _ => []
  | count + 1, lo => unitOf lo (min (lo + chunkSize) hi) owner :: cut chunkSize hi owner count (lo + chunkSize)

def units (chunkSize lo hi owner : Nat) : List WorkUnit :=
  cut chunkSize hi owner (Word.ceilDiv (hi - lo) chunkSize) lo

/-- How many chunks are stolen from a worker that has `remaining` vertices left: half of them, rounded up, but
no more than the limit. -/
def chunksToSteal (remaining chunkSize stealBatch : Nat) : Nat :=
  min (max (Word.ceilDiv (Word.ceilDiv remaining chunkSize) 2) 1) stealBatch

/-- What a call does after it has looked at all workers. -/
def afterScan (c : Coordinator) : (best : Option (Nat × Nat)) → Call
  | none => finished none
  | some (_, 0) => popQueueAgain
  | some (victim, remaining) =>
      match Word.checkedMul (chunksToSteal remaining c.chunkSize c.stealBatch) c.chunkSize with
      | .ok amount => claimFrom victim amount
      | .error f => failed f

/-- The better of two workers to steal from: the second, unless it has less left. -/
def better (best : Option (Nat × Nat)) (peer remaining : Nat) : Option (Nat × Nat) :=
  match best with
  | some (victim, most) => if most ≤ remaining then some (peer, remaining) else some (victim, most)
  | none => some (peer, remaining)

/-- The next step of a call of worker `g`, and the shared state after it. -/
def step (g : Nat) (call : Call) (c : Coordinator) : Call × Coordinator :=
  match call with
  | claimOwn =>
      match c.claim g c.chunkSize with
      | (.ok (some (lo, hi)), c) => (countOwn lo hi, c)
      | (.ok none, c) => (popBacklog, c)
      | (.error f, c) => (failed f, c)
  | countOwn lo hi => (handOut (unitOf lo hi g), c.addProduced (hi - lo))
  | popBacklog =>
      match c.popBacklog g with
      | (some u, c) => (handOut u, c)
      | (none, c) => (popQueue, c)
  | popQueue =>
      match c.popQueue with
      | (some u, c) => (handOut u, c)
      | (none, c) => (scan 0 none, c)
  | scan peer best =>
      if peer < c.cursors.size then
        (scan (peer + 1) (if peer = g then best else better best peer (c.remaining peer)), c)
      else
        (afterScan c best, c)
  | popQueueAgain =>
      match c.popQueue with
      | (some u, c) => (handOut u, c)
      | (none, c) => (finished none, c)
  | claimFrom victim amount =>
      match c.claim victim amount with
      | (.ok (some (lo, hi)), c) => (countStolen victim lo hi, c)
      | (.ok none, c) => (scan 0 none, c)
      | (.error f, c) => (failed f, c)
  | countStolen victim lo hi =>
      match units c.chunkSize lo hi victim with
      | first :: rest => (relinquish first rest, c.addProduced (hi - lo))
      | [] => (failed (.indexOutOfBounds 0 0), c.addProduced (hi - lo))
  | relinquish first rest =>
      match c.pushQueue rest with
      | ([], c) => (handOut first, c)
      | (left, c) => (keep first left, c)
  | keep first left => (handOut first, c.extendBacklog g left)
  | handOut u => (finished (some u), c.addClaimed u.size)
  | finished u => (finished u, c)
  | failed f => (failed f, c)

def isOver : Call → Bool
  | finished _ => true
  | failed _ => true
  | _ => false

/-- Makes up to `steps` steps of a call, one after another. -/
def run (g : Nat) : (steps : Nat) → Call → Coordinator → Call × Coordinator
  | 0, call, c => (call, c)
  | steps + 1, call, c =>
      if call.isOver then (call, c)
      else
        let (call, c) := call.step g c
        run g steps call c

/-- More steps than any call can take: it scans the workers no more often than there are workers, since each
time the claim after it fails another slice has come to its end. -/
def maxSteps (workers : Nat) : Nat := (workers + 1) * (workers + 2) + 10

def answer : Call → Except Fault (Option WorkUnit)
  | finished u => .ok u
  | failed f => .error f
  | _ => .error .unfinishedCall

end Call

namespace Coordinator

variable (c : Coordinator)

def complete (g : Nat) (call : Call) : Except Fault (Option WorkUnit) × Coordinator :=
  let (call, c) := Call.run g (Call.maxSteps c.cursors.size) call c
  (call.answer, c)

/-- The next unit for a worker, or nothing once all work has been claimed. -/
def getLoop (rank worker : Nat) : Except Fault (Option WorkUnit) × Coordinator :=
  match c.globalWorker rank worker with
  | .ok g => c.complete g .claimOwn
  | .error f => (.error f, c)

def frontAndPop : Except Fault (Option WorkUnit) × Coordinator := c.complete 0 .popQueueAgain

def setLoop (units : List WorkUnit) : List WorkUnit × Coordinator := c.pushQueue units

/-- The units that a worker gets until there are no more, in at most `limit` calls. -/
def drainUpTo (rank worker : Nat) : (limit : Nat) → Coordinator → Except Fault (List WorkUnit) × Coordinator
  | 0, c => (.ok [], c)
  | limit + 1, c =>
      match c.getLoop rank worker with
      | (.ok (some u), c) =>
          let (rest, c) := drainUpTo rank worker limit c
          (rest.map (u :: ·), c)
      | (.ok none, c) => (.ok [], c)
      | (.error f, c) => (.error f, c)

def drain (rank worker : Nat) : Except Fault (List WorkUnit) × Coordinator :=
  drainUpTo rank worker c.callLimit c

end Coordinator

end PatternCount
