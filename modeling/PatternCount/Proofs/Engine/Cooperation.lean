import PatternCount.Proofs.Engine.Tallies

/-!
# Ranks that run together

In a cooperative run the ranks share one coordinator, and all their workers are at work side by side. A
`Cooperation` is the coordinator and the ranks, each with its search, its workers, its tally and its report. It
takes one step after the other, in whatever order the turns of a schedule give them:

- at a turn of a worker, its call for work makes its next step; or it counts the unit that it got from its last call
  and calls again; or, if it got nothing, it is done (`Member.step`);
- at a turn of a rank whose workers are all done, their shares are added up and the report begins, or goes on
  (`RankRun.conclude`).

Nothing that a worker counts concerns the coordinator. So the workers of all ranks are a crew (`Cooperation.crew`),
and a step of the cooperation is a step of the crew, or leaves its workers as they are (`crew_setMember`,
`crew_setRank`).
-/

namespace PatternCount

/-! ## Lists of equally long parts -/

section Parts

variable {α β : Type} {f : α → List β} {n : Nat} {x x' : α} {y y' : β}

theorem set_getElem?_self {α : Type} {xs : List α} {i : Nat} {x : α} (h : xs[i]? = some x) : xs.set i x = xs := by
  obtain ⟨hi, rfl⟩ := List.getElem?_eq_some_iff.mp h
  exact List.set_getElem_self hi

theorem getElem?_set_of_some {α : Type} {xs : List α} {i : Nat} {x y : α} (h : xs[i]? = some x) :
    (xs.set i y)[i]? = some y := List.getElem?_set_self (List.getElem?_eq_some_iff.mp h).1

theorem getElem?_flatMap_of_length : ∀ {xs : List α} {i j : Nat}, (∀ x ∈ xs, (f x).length = n) →
    xs[i]? = some x → (f x)[j]? = some y → (xs.flatMap f)[i * n + j]? = some y
  | [], _, _, _, h, _ => by cases h
  | x :: xs, 0, j, _, h, hy => by
      obtain rfl := Option.some.inj h
      rw [List.flatMap_cons, Nat.zero_mul, Nat.zero_add,
        List.getElem?_append_left (List.getElem?_eq_some_iff.mp hy).1]
      exact hy
  | x :: xs, i + 1, j, hlen, h, hy => by
      obtain ⟨hx, hxs⟩ := List.forall_mem_cons.mp hlen
      rw [List.flatMap_cons, List.getElem?_append_right (by rw [hx, Nat.succ_mul]; omega), hx,
        show (i + 1) * n + j - n = i * n + j by rw [Nat.succ_mul]; omega]
      exact getElem?_flatMap_of_length hxs h hy

theorem flatMap_set : ∀ {xs : List α} {i j : Nat}, (∀ x ∈ xs, (f x).length = n) → xs[i]? = some x → j < n →
    f x' = (f x).set j y' → (xs.set i x').flatMap f = (xs.flatMap f).set (i * n + j) y'
  | [], _, _, _, h, _, _ => by cases h
  | x :: xs, 0, j, hlen, h, hj, hx' => by
      obtain rfl := Option.some.inj h
      rw [List.set_cons_zero, List.flatMap_cons, List.flatMap_cons, hx', Nat.zero_mul, Nat.zero_add,
        List.set_append_left _ _ (by rwa [hlen x List.mem_cons_self])]
  | x :: xs, i + 1, j, hlen, h, hj, hx' => by
      obtain ⟨hx, hxs⟩ := List.forall_mem_cons.mp hlen
      rw [List.set_cons_succ, List.flatMap_cons, List.flatMap_cons, flatMap_set hxs h hj hx',
        List.set_append_right _ _ (by rw [hx, Nat.succ_mul]; omega), hx,
        show (i + 1) * n + j - n = i * n + j by rw [Nat.succ_mul]; omega]

theorem flatMap_set_of_eq {xs : List α} {i : Nat} (h : xs[i]? = some x) (hx' : f x' = f x) :
    (xs.set i x').flatMap f = xs.flatMap f := by
  rw [List.flatMap_def, List.flatMap_def, List.map_set, hx', set_getElem?_self (by rw [List.getElem?_map, h]; rfl)]

end Parts

open WorkUnit Engine

/-! ## Workers -/

/-- A worker of a rank: where its calls for work stand, what it has counted, and its buffers. -/
structure Member where
  worker : Worker
  share : Share
  buffers : List Buffers

namespace Member

def start (s : Search) : Member := ⟨.start, ⟨0, 0⟩, s.workerBuffers⟩

def isDone (m : Member) : Bool := m.worker.call = .finished none

/-- The next step of worker `g` of all workers, and the shared state after it. -/
def step (s : Search) (g : Nat) (m : Member) (c : Coordinator) : Member × Coordinator :=
  match m.worker.call with
  | .finished none => (m, c)
  | .finished (some u) =>
      match countInto s m.share m.buffers u with
      | .ok (share, buffers) => (⟨m.worker.again, share, buffers⟩, c)
      | .error f => ({ m with worker := { m.worker with call := .failed f } }, c)
  | _ =>
      let (worker, c) := m.worker.step g c
      ({ m with worker }, c)

variable {s : Search} {g : Nat} {m : Member} {c : Coordinator}

theorem step_of_done (h : m.worker.call = .finished none) : m.step s g c = (m, c) := by
  rw [step, h]

theorem step_of_counted {u : WorkUnit} {share : Share} {buffers : List Buffers}
    (h : m.worker.call = .finished (some u)) (hcount : countInto s m.share m.buffers u = .ok (share, buffers)) :
    m.step s g c = (⟨m.worker.again, share, buffers⟩, c) := by
  rw [step, h]
  simp only [hcount]

theorem step_of_not_over (h : m.worker.call.isOver = false) : m.step s g c =
    ({ m with worker := m.worker.after (m.worker.call.step g c).1 }, (m.worker.call.step g c).2) := by
  unfold step
  split
  · next hcall => rw [hcall] at h; cases h
  · next hcall => rw [hcall] at h; cases h
  · rw [Worker.step_of_not_over h]

end Member

/-! ## Ranks -/

structure RankRun where
  search : Search
  members : List Member
  /-- The seconds that each worker spends. -/
  seconds : Nat → Binary64
  tally : Tally
  /-- Where the report stands, once all workers are done. -/
  report : Option Report

namespace RankRun

/-- A rank that an engine is to carry out: its workers are about to make their first calls. -/
def start (g : HostGraph) (p : Plan) (threads : Nat) (setup : Engine × Tally) : RankRun :=
  let s := setup.1.search g p
  ⟨s, List.replicate threads (.start s), setup.1.pool.seconds, { setup.2 with iepRedundancy := 0 }, none⟩

variable (r : RankRun)

def shares : List Share := r.members.map Member.share

def setMember (worker : Nat) (m : Member) : RankRun := { r with members := r.members.set worker m }

/-- What a rank does when its workers are done: it brings its tally up to date and reports its total. -/
def conclude (rank : Nat) (c : Coordinator) : RankRun × Coordinator :=
  match r.report with
  | some report =>
      let (report, c) := report.step c
      ({ r with report := some report }, c)
  | none =>
      if r.members.all Member.isDone then
        match addShares r.seconds 0 r.shares 0 r.tally with
        | (.ok total, tally) => ({ r with tally, report := some (.fill rank total) }, c)
        | (.error f, tally) => ({ r with tally, report := some (.failed f) }, c)
      else (r, c)

def workers : List Worker := r.members.map Member.worker

theorem workers_start (g : HostGraph) (p : Plan) (threads : Nat) (setup : Engine × Tally) :
    (start g p threads setup).workers = List.replicate threads .start := List.map_replicate

theorem workers_setMember {worker : Nat} {m : Member} :
    (r.setMember worker m).workers = r.workers.set worker m.worker := List.map_set

/-- The worker after some others can be replaced, and is then one of them. -/
theorem members_append {first rest : List Member} {m : Member} (h : r.members = first ++ m :: rest) :
    r.members[first.length]? = some m ∧ ∀ m', (r.setMember first.length m').members = (first ++ [m']) ++ rest := by
  constructor
  · rw [h, List.getElem?_append_right (Nat.le_refl _), Nat.sub_self]
    rfl
  · intro m'
    rw [setMember, h, List.set_append_right _ _ (Nat.le_refl _), Nat.sub_self, List.set_cons_zero, List.append_assoc]
    rfl

end RankRun

/-! ## Runs -/

inductive Turn where
  | work (rank worker : Nat)
  | conclude (rank : Nat)
deriving DecidableEq, Repr

def Turn.rank : Turn → Nat
  | work rank _ => rank
  | conclude rank => rank

/-- A coordinator and the ranks that share it. -/
structure Cooperation where
  shared : Coordinator
  ranks : List RankRun

namespace Cooperation

def start (g : HostGraph) (p : Plan) (c : Coordinator) (setups : List (Engine × Tally)) : Cooperation where
  shared := c
  ranks := setups.map (.start g p c.layout.threadsPerRank)

variable (run : Cooperation)

/-- The number of a worker among all workers. -/
def worker (rank worker : Nat) : Nat := rank * run.shared.layout.threadsPerRank + worker

def step : Turn → Cooperation
  | .work rank worker =>
      match run.ranks[rank]? with
      | none => run
      | some r =>
          match r.members[worker]? with
          | none => run
          | some m =>
              let (m, c) := m.step r.search (run.worker rank worker) run.shared
              ⟨c, run.ranks.set rank (r.setMember worker m)⟩
  | .conclude rank =>
      match run.ranks[rank]? with
      | none => run
      | some r =>
          let (r, c) := r.conclude rank run.shared
          ⟨c, run.ranks.set rank r⟩

/-- The steps of a schedule, one after the other. -/
def steps (schedule : List Turn) : Cooperation := schedule.foldl step run

/-- Whether a cursor wraps around at a turn. -/
def wraps : Turn → Bool
  | .work rank worker =>
      run.ranks[rank]?.any fun r =>
        r.members[worker]?.any fun m => m.worker.call.wraps (run.worker rank worker) run.shared
  | .conclude _ => false

def stepsWrap (run : Cooperation) : (schedule : List Turn) → Bool
  | [] => false
  | turn :: rest => run.wraps turn || (run.step turn).stepsWrap rest

def crew : Crew := ⟨run.shared, run.ranks.flatMap RankRun.workers⟩

variable {run : Cooperation} {rank worker : Nat} {r r' : RankRun} {m m' : Member} {c : Coordinator}

theorem step_work (hr : run.ranks[rank]? = some r) (hm : r.members[worker]? = some m)
    (hstep : m.step r.search (run.worker rank worker) run.shared = (m', c)) :
    run.step (.work rank worker) = ⟨c, run.ranks.set rank (r.setMember worker m')⟩ := by
  simp only [step, hr, hm, hstep]

theorem step_conclude (hr : run.ranks[rank]? = some r) (hstep : r.conclude rank run.shared = (r', c)) :
    run.step (.conclude rank) = ⟨c, run.ranks.set rank r'⟩ := by
  simp only [step, hr, hstep]

/-- The workers of a rank, by their numbers in it. -/
def member? (run : Cooperation) (rank worker : Nat) : Option Member := run.ranks[rank]?.bind (·.members[worker]?)

theorem member?_eq_some : run.member? rank worker = some m ↔
    ∃ r, run.ranks[rank]? = some r ∧ r.members[worker]? = some m := Option.bind_eq_some_iff

/-- A turn is that of some worker, or it changes nothing. -/
theorem member?_cases (run : Cooperation) (rank worker : Nat) :
    (run.member? rank worker = none ∧ run.step (.work rank worker) = run) ∨
      ∃ r m, run.ranks[rank]? = some r ∧ r.members[worker]? = some m := by
  cases hr : run.ranks[rank]? with
  | none => exact .inl ⟨by rw [member?, hr]; rfl, by simp only [step, hr]⟩
  | some r =>
      cases hm : r.members[worker]? with
      | none => exact .inl ⟨by rw [member?, hr]; exact hm, by simp only [step, hr, hm]⟩
      | some m => exact .inr ⟨r, m, rfl, hm⟩

section Crew

variable (hlength : ∀ r ∈ run.ranks, r.members.length = run.shared.layout.threadsPerRank)
include hlength

theorem getElem?_crew (hr : run.ranks[rank]? = some r) (hm : r.members[worker]? = some m) :
    run.crew.workers[run.worker rank worker]? = some m.worker := by
  refine getElem?_flatMap_of_length (fun r hr => ?_) hr ?_
  · rw [RankRun.workers, List.length_map]
    exact hlength r hr
  · rw [RankRun.workers, List.getElem?_map, hm]
    rfl

theorem crew_setMember (hr : run.ranks[rank]? = some r) (hm : r.members[worker]? = some m) :
    (Cooperation.mk c (run.ranks.set rank (r.setMember worker m'))).crew
      = ⟨c, run.crew.workers.set (run.worker rank worker) m'.worker⟩ := by
  have hworker : worker < run.shared.layout.threadsPerRank :=
    hlength r (List.mem_of_getElem? hr) ▸ (List.getElem?_eq_some_iff.mp hm).1
  refine congrArg (Crew.mk c) (flatMap_set (fun r hr => ?_) hr hworker r.workers_setMember)
  rw [RankRun.workers, List.length_map]
  exact hlength r hr

theorem wraps_crew (hr : run.ranks[rank]? = some r) (hm : r.members[worker]? = some m) :
    run.crew.wraps (run.worker rank worker) = run.wraps (.work rank worker) := by
  rw [Crew.wraps, getElem?_crew hlength hr hm]
  simp only [wraps, hr, hm, Option.any_some]
  rfl

end Crew

theorem crew_setRank (hr : run.ranks[rank]? = some r) (hmembers : r'.members = r.members) :
    (Cooperation.mk c (run.ranks.set rank r')).crew = ⟨c, run.crew.workers⟩ := by
  refine congrArg (Crew.mk c) (flatMap_set_of_eq hr ?_)
  rw [RankRun.workers, RankRun.workers, hmembers]

end Cooperation

end PatternCount
