import PatternCount.Proofs.Engine.Total

/-!
# Sequences of runs

Several runs may count into one tally, one after the other, each over a graph of its own (`Job`). The workers of a run
have their turns in any order, and so the counts are spread over the slots of the tally in any way; but the sums over
all slots grow by what each run counts (`Job.grown_of_carryOut`). So after a sequence of runs they have grown by the
sums of that, and are what the sums would be if each run had counted into a fresh tally
(`Job.carryOutAll_accumulates`).

What is run here is a `Cooperation` of one rank. `Engine.run` is the run in which each worker has all its turns at once
(`Job.engine_run_eq`), so that the same is true of it.
-/

namespace PatternCount

open Engine

/-- A run that is to be made: what is counted in which graph by which engine, and the order in which its workers and
its rank have their turns. -/
structure Job where
  engine : Engine
  graph : HostGraph
  plan : Plan
  schedule : List Turn

namespace Job

/-- How many tuples there are to count. -/
noncomputable def tuples (j : Job) : Nat := Level.tupleCount j.plan.levels j.graph

def vertices (j : Job) : Nat := j.graph.vertexCount

/-- A run before its first turn, with a worker for each slot of the tally. -/
def start (j : Job) (t : Tally) : Except Fault Cooperation := do
  let c ← j.engine.coordinator j.graph (.single t.numThreads)
  j.engine.checkRun j.graph t c
  return .start j.graph j.plan c [(j.engine, t)]

/-- The tally after a run that has come to its end. -/
def carryOut (j : Job) (t : Tally) : Option Tally :=
  match j.start t with
  | .ok run => ((run.steps j.schedule).ranks.head?.filter (·.report = some .finished)).map RankRun.tally
  | .error _ => none

def wraps (j : Job) (t : Tally) : Bool :=
  match j.start t with
  | .ok run => run.stepsWrap j.schedule
  | .error _ => false

/-- The tally after runs that have come to their ends one after the other. -/
def carryOutAll : (jobs : List Job) → Tally → Option Tally
  | [], t => some t
  | j :: rest, t => (j.carryOut t).bind (carryOutAll rest)

def allWrap : (jobs : List Job) → Tally → Bool
  | [], _ => false
  | j :: rest, t => j.wraps t || (j.carryOut t).any (allWrap rest)

/-- The same run, but each worker has all its turns at once. -/
def inTurn (n : Nat) (j : Job) : Job :=
  { j with schedule := Cooperation.inOrder (Cooperation.turnsNeeded j.vertices (Layout.single n).workers) n [0] }

/-- A run can be made with `n` workers: they are no more than there are threads, and there is room for its tables. -/
structure Ready (n : Nat) (j : Job) : Prop where
  graph : ∃ rows, HostGraph.ofAdjacency rows = .ok j.graph
  threads : n ≤ j.engine.threads
  coordinator : ∃ c, j.engine.coordinator j.graph (.single n) = .ok c

/-- All runs can be made with a worker for each slot of the tally, which has room for what they count. -/
structure Feasible (jobs : List Job) (t : Tally) : Prop where
  slotted : t.Slotted
  ready : ∀ j ∈ jobs, j.Ready t.numThreads
  results_fit : t.results.toList.sum + (jobs.map tuples).sum < Word.size
  handled_fit : t.handled.toList.sum + (jobs.map vertices).sum < Word.size

/-- A run counts that many if it is made by itself, with a fresh tally for any number of workers, by any engine and with
their turns in any order. -/
def CountsAlone (j : Job) (total : Nat) : Prop :=
  ∃ n t engine schedule t', Tally.ofWorkers n = .ok t ∧ ({ j with engine } : Job).Ready n ∧
    ({ j with engine, schedule } : Job).wraps t = false ∧
    ({ j with engine, schedule } : Job).carryOut t = some t' ∧ t'.total = .ok total

end Job

/-- Counts into one tally what is to be counted by several runs, one after the other; the first fault if any of them
fails. -/
def Engine.runAll : List Job → Tally → Except Fault Tally
  | [], t => .ok t
  | j :: rest, t =>
      match j.engine.run j.graph j.plan t with
      | (.ok _, t) => runAll rest t
      | (.error f, _) => .error f

namespace Job

variable {j : Job} {jobs : List Job} {t t' : Tally}

/-! ## Single runs -/

theorem carryOut_of_ranks {run : Cooperation} {r : RankRun} (hstart : j.start t = .ok run)
    (hranks : (run.steps j.schedule).ranks = [r]) :
    j.carryOut t = if r.report = some .finished then some r.tally else none := by
  simp only [carryOut, hstart, hranks, List.head?_cons, Option.filter_some, decide_eq_true_eq]
  split <;> rfl

theorem Ready.vertices_lt {n : Nat} (hj : j.Ready n) : j.vertices < 2 ^ 32 := by
  obtain ⟨rows, hrows⟩ := hj.graph
  exact HostGraph.vertexCount_lt_of_ofAdjacency hrows

section Single

variable (h : Feasible [j] t)
include h

theorem start_eq_ok : ∃ c, j.engine.coordinator j.graph (.single t.numThreads) = .ok c ∧
    j.engine.checkRun j.graph t c = .ok () ∧ j.start t = .ok (.start j.graph j.plan c [(j.engine, t)]) := by
  have hj := h.ready j (List.mem_singleton_self j)
  obtain ⟨c, hc⟩ := hj.coordinator
  obtain ⟨hcount, hlayout, -, -⟩ := Coordinator.fields_of_start hc
  have hcheck : j.engine.checkRun j.graph t c = .ok () :=
    checkRun_eq_ok.mpr ⟨Nat.ne_of_gt h.slotted.pos, hj.threads, congrArg Layout.threadsPerRank hlayout, hcount⟩
  refine ⟨c, hc, hcheck, ?_⟩
  simp only [start, hc, hcheck, bind, Except.bind, pure, Except.pure]

theorem sound_start {c : Coordinator} (hc : j.engine.coordinator j.graph (.single t.numThreads) = .ok c) :
    (Cooperation.start j.graph j.plan c [(j.engine, t)]).Sound j.graph j.plan [{ t with iepRedundancy := 0 }] := by
  have hj := h.ready j (List.mem_singleton_self j)
  obtain ⟨rows, hrows⟩ := hj.graph
  have hroom : ∀ s ∈ [(j.engine, t)], s.2.HasRoom j.graph j.plan t.numThreads :=
    List.forall_mem_singleton.mpr ⟨h.slotted.results, h.slotted.handled, h.slotted.elapsed, h.results_fit, h.handled_fit⟩
  exact Cooperation.sound_start (HostGraph.closed_of_ofAdjacency hrows) hj.vertices_lt hc rfl hroom

/-- What a run comes to is what its only rank comes to. -/
theorem carryOut_eq (hwrap : j.wraps t = false) : ∃ (run : Cooperation) (r : RankRun),
    run.Sound j.graph j.plan [{ t with iepRedundancy := 0 }] ∧ run.ranks = [r] ∧
      (j.carryOut t = if r.report = some .finished then some r.tally else none) ∧
      (Cooperation.Fair (.single t.numThreads) j.vertices j.schedule → r.report = some .finished) := by
  obtain ⟨c, hc, -, hstart⟩ := start_eq_ok h
  obtain ⟨-, hlayout, -, -⟩ := Coordinator.fields_of_start hc
  have hsound := sound_start h hc
  rw [wraps, hstart] at hwrap
  obtain ⟨hend, hlater⟩ := hsound.steps j.schedule hwrap
  have hcount : ((Cooperation.start j.graph j.plan c [(j.engine, t)]).steps j.schedule).ranks.length = 1 := by
    rw [hend.length, hlater.layout]
    exact congrArg Layout.ranks hlayout
  obtain ⟨r, hr⟩ := List.length_eq_one_iff.mp hcount
  refine ⟨_, r, hend, hr, carryOut_of_ranks hstart hr, fun hfair => ?_⟩
  refine hsound.finishes hwrap ?_ r (hr ▸ List.mem_singleton_self r)
  exact hlayout ▸ hfair

/-- A run that has come to its end has counted all tuples and handled all vertices. -/
theorem grown_of_carryOut (hwrap : j.wraps t = false) (hend : j.carryOut t = some t') :
    t.Grown t' j.tuples j.vertices ∧ t'.iepRedundancy = 0 := by
  obtain ⟨run, r, hsound, hranks, heq, -⟩ := carryOut_eq h hwrap
  rw [heq, Option.ite_none_right_eq_some] at hend
  obtain ⟨hreport, hr⟩ := hend
  obtain rfl := Option.some.inj hr
  have hrank : run.ranks[0]? = some r := by rw [hranks]; rfl
  obtain ⟨hconcluded, -⟩ := hsound.concluded hrank rfl hreport
  obtain ⟨hgrown, hredundancy⟩ := hsound.grown hrank rfl hconcluded
  obtain ⟨htotals, hvertices⟩ := hsound.sums_of_done
    (by rw [hranks]; exact List.forall_mem_singleton.mpr hconcluded.1)
  rw [hranks, List.map_singleton, List.sum_singleton] at htotals hvertices
  rw [htotals, hvertices] at hgrown
  exact ⟨hgrown.of_reset, hredundancy⟩

/-- `Engine.run` is the run in which each worker has all its turns at once. -/
theorem engine_run_eq (hwrap : (j.inTurn t.numThreads).wraps t = false) :
    ∃ t', j.engine.run j.graph j.plan t = (.ok (), t') ∧ (j.inTurn t.numThreads).carryOut t = some t' := by
  obtain ⟨c, hc, hcheck, hstart⟩ := start_eq_ok h
  obtain ⟨-, hlayout, -, -⟩ := Coordinator.fields_of_start hc
  have hsound := sound_start h hc
  have hstart' : (j.inTurn t.numThreads).start t = .ok (.start j.graph j.plan c [(j.engine, t)]) := hstart
  rw [wraps, hstart', inTurn, Cooperation.inOrder, List.flatMap_singleton] at hwrap
  have hlayout : (Cooperation.start j.graph j.plan c [(j.engine, t)]).shared.layout = .single t.numThreads := hlayout
  have hthreads : c.layout.threadsPerRank = t.numThreads := congrArg Layout.threadsPerRank hlayout
  have hrank : (Cooperation.start j.graph j.plan c [(j.engine, t)]).ranks[0]?
      = some (.start j.graph j.plan t.numThreads (j.engine, t)) := by rw [← hthreads]; rfl
  obtain ⟨r, hreport, hranks, hrun⟩ := hsound.runRank_eq hthreads hwrap hrank hcheck
    (by rw [hlayout, vertices])
  refine ⟨r.tally, ?_, ?_⟩
  · have hrun : j.engine.runRank j.graph j.plan t c 0 = (.ok (), r.tally, _) := hrun
    simp only [Engine.run, hc, hrun]
  · rw [carryOut_of_ranks hstart' ?_, if_pos hreport]
    rw [inTurn, Cooperation.inOrder, List.flatMap_singleton]
    exact hranks

end Single

/-! ## Sequences of runs -/

theorem Feasible.head (h : Feasible (j :: jobs) t) : Feasible [j] t where
  slotted := h.slotted
  ready := List.forall_mem_singleton.mpr (h.ready j List.mem_cons_self)
  results_fit := by
    have hfit := h.results_fit
    rw [List.map_cons, List.sum_cons] at hfit
    rw [List.map_singleton, List.sum_singleton]
    omega
  handled_fit := by
    have hfit := h.handled_fit
    rw [List.map_cons, List.sum_cons] at hfit
    rw [List.map_singleton, List.sum_singleton]
    omega

theorem Ready.withSchedule {n : Nat} (hj : j.Ready n) (schedule : List Turn) : ({ j with schedule } : Job).Ready n :=
  ⟨hj.graph, hj.threads, hj.coordinator⟩

theorem Feasible.inTurn (h : Feasible jobs t) (n : Nat) : Feasible (jobs.map (inTurn n)) t where
  slotted := h.slotted
  ready := List.forall_mem_map.mpr fun j hj => (h.ready j hj).withSchedule _
  results_fit := by
    rw [List.map_map]
    exact h.results_fit
  handled_fit := by
    rw [List.map_map]
    exact h.handled_fit

theorem Feasible.tail (h : Feasible (j :: jobs) t) (hgrown : t.Grown t' j.tuples j.vertices) : Feasible jobs t' where
  slotted := hgrown.slotted h.slotted
  ready := fun i hi => hgrown.numThreads ▸ h.ready i (List.mem_cons_of_mem j hi)
  results_fit := by
    rw [hgrown.results, Nat.add_assoc]
    exact h.results_fit
  handled_fit := by
    rw [hgrown.handled, Nat.add_assoc]
    exact h.handled_fit

/-- Runs that have come to their ends one after the other have counted all their tuples. -/
theorem grown_of_carryOutAll : ∀ {jobs : List Job} {t : Tally}, Feasible jobs t → allWrap jobs t = false →
    carryOutAll jobs t = some t' → t.Grown t' (jobs.map tuples).sum (jobs.map vertices).sum ∧
      (jobs ≠ [] ∨ t.iepRedundancy = 0 → t'.iepRedundancy = 0)
  | [], t, _, _, hend => by
      obtain rfl := Option.some.inj hend
      exact ⟨.refl t, fun h => h.elim (absurd rfl) id⟩
  | j :: rest, t, h, hwrap, hend => by
      obtain ⟨t₁, hfirst, hrest⟩ := Option.bind_eq_some_iff.mp hend
      rw [allWrap, hfirst, Bool.or_eq_false_iff] at hwrap
      obtain ⟨hgrown, hredundancy⟩ := grown_of_carryOut h.head hwrap.1 hfirst
      obtain ⟨hgrown', hredundancy'⟩ := grown_of_carryOutAll (h.tail hgrown) hwrap.2 hrest
      exact ⟨hgrown.trans hgrown', fun _ => hredundancy' (.inr hredundancy)⟩

/-- If in each run all workers have turns enough, all runs come to their ends. -/
theorem exists_carryOutAll : ∀ {jobs : List Job} {t : Tally}, Feasible jobs t → allWrap jobs t = false →
    (∀ j ∈ jobs, Cooperation.Fair (.single t.numThreads) j.vertices j.schedule) → ∃ t', carryOutAll jobs t = some t'
  | [], t, _, _, _ => ⟨t, rfl⟩
  | j :: rest, t, h, hwrap, hfair => by
      obtain ⟨hfair, hrest⟩ := List.forall_mem_cons.mp hfair
      rw [allWrap, Bool.or_eq_false_iff] at hwrap
      obtain ⟨run, r, -, -, heq, hreport⟩ := carryOut_eq h.head hwrap.1
      rw [if_pos (hreport hfair)] at heq
      rw [heq] at hwrap
      obtain ⟨hgrown, -⟩ := grown_of_carryOut h.head hwrap.1 heq
      obtain ⟨t', hend⟩ := exists_carryOutAll (h.tail hgrown) hwrap.2 (hgrown.numThreads ▸ hrest)
      exact ⟨t', Option.bind_eq_some_iff.mpr ⟨_, heq, hend⟩⟩

theorem runAll_eq : ∀ {jobs : List Job} {t : Tally}, Feasible jobs t →
    allWrap (jobs.map (inTurn t.numThreads)) t = false →
      ∃ t', Engine.runAll jobs t = .ok t' ∧ carryOutAll (jobs.map (inTurn t.numThreads)) t = some t'
  | [], t, _, _ => ⟨t, rfl, rfl⟩
  | j :: rest, t, h, hwrap => by
      rw [List.map_cons, allWrap, Bool.or_eq_false_iff] at hwrap
      obtain ⟨t₁, hrun, hfirst⟩ := engine_run_eq h.head hwrap.1
      rw [hfirst] at hwrap
      obtain ⟨hgrown, -⟩ := grown_of_carryOut (h.head.inTurn t.numThreads) hwrap.1 hfirst
      obtain ⟨t', hruns, hend⟩ := runAll_eq (h.tail hgrown) (by rw [hgrown.numThreads]; exact hwrap.2)
      rw [hgrown.numThreads] at hend
      refine ⟨t', ?_, Option.bind_eq_some_iff.mpr ⟨t₁, hfirst, hend⟩⟩
      simp only [Engine.runAll, hrun, hruns]

/-- What has become of a tally into which runs have counted: its sums have grown by all their tuples and vertices, as
much as by what each of them counts alone, and its slots are as many as before. -/
structure Accumulated (jobs : List Job) (t t' : Tally) : Prop where
  gained : t.Gained t' (jobs.map tuples).sum (jobs.map vertices).sum
  alone : ∀ totals, List.Forall₂ CountsAlone jobs totals →
    ∃ total, t.total = .ok total ∧ t'.total = .ok (total + totals.sum)
  numThreads : t'.numThreads = t.numThreads
  slotted : t'.Slotted
  iepRedundancy : jobs ≠ [] → t'.iepRedundancy = 0

/-- A run by itself counts all its tuples. -/
theorem CountsAlone.eq_tuples {total : Nat} (h : j.CountsAlone total) (hfit : j.tuples < Word.size) :
    total = j.tuples := by
  obtain ⟨n, t, engine, schedule, t', ht, hj, hwrap, hend, htotal⟩ := h
  obtain ⟨hslotted, rfl, hresults, hhandled⟩ := Tally.slotted_ofWorkers ht
  have hresult : t.results.toList.sum + j.tuples < Word.size := by rwa [hresults, Nat.zero_add]
  have hvertices : t.handled.toList.sum + j.vertices < Word.size := by
    rw [hhandled, Nat.zero_add]
    exact Nat.lt_trans hj.vertices_lt (by decide)
  have hfeasible : Feasible [{ j with engine, schedule }] t :=
    ⟨hslotted, List.forall_mem_singleton.mpr (hj.withSchedule schedule), hresult, hvertices⟩
  obtain ⟨hgrown, -⟩ := grown_of_carryOut hfeasible hwrap hend
  have hsum : t'.results.toList.sum = j.tuples := by
    rw [hgrown.results, hresults, Nat.zero_add]
    rfl
  rw [Tally.total_eq_ok (by rwa [hsum]), hsum] at htotal
  exact (Except.ok.inj htotal).symm

theorem sum_of_countsAlone {totals : List Nat} (h : List.Forall₂ CountsAlone jobs totals)
    (hfit : (jobs.map tuples).sum < Word.size) : totals.sum = (jobs.map tuples).sum := by
  induction h with
  | nil => rfl
  | cons hfirst _ ih =>
      rw [List.map_cons, List.sum_cons] at hfit ⊢
      rw [List.sum_cons, hfirst.eq_tuples (by omega), ih (by omega)]

theorem Feasible.accumulated (h : Feasible jobs t)
    (hgrown : t.Grown t' (jobs.map tuples).sum (jobs.map vertices).sum)
    (hredundancy : jobs ≠ [] → t'.iepRedundancy = 0) : Accumulated jobs t t' where
  gained := hgrown.gained h.results_fit h.handled_fit
  alone := fun totals htotals => by
    rw [sum_of_countsAlone htotals (Nat.lt_of_le_of_lt (Nat.le_add_left _ _) h.results_fit)]
    exact (hgrown.gained h.results_fit h.handled_fit).total
  numThreads := hgrown.numThreads
  slotted := hgrown.slotted h.slotted
  iepRedundancy := hredundancy

/-- Runs that count into one tally, one after the other, if no cursor wraps around in them. Each run comes to its end if
its workers have turns enough, in whatever order. Once all have, the sums of the tally have grown by all tuples and all
vertices, and by what each run would have counted by itself. The same holds of `Engine.runAll`. -/
theorem carryOutAll_accumulates (h : Feasible jobs t) :
    (allWrap jobs t = false →
      ((∀ j ∈ jobs, Cooperation.Fair (.single t.numThreads) j.vertices j.schedule) →
        ∃ t', carryOutAll jobs t = some t') ∧
      ∀ t', carryOutAll jobs t = some t' → Accumulated jobs t t') ∧
    (allWrap (jobs.map (inTurn t.numThreads)) t = false →
      ∃ t', Engine.runAll jobs t = .ok t' ∧ Accumulated jobs t t') := by
  refine ⟨fun hwrap => ⟨exists_carryOutAll h hwrap, fun t' hend => ?_⟩, fun hwrap => ?_⟩
  · obtain ⟨hgrown, hredundancy⟩ := grown_of_carryOutAll h hwrap hend
    exact h.accumulated hgrown fun hne => hredundancy (.inl hne)
  · obtain ⟨t', hruns, hend⟩ := runAll_eq h hwrap
    obtain ⟨hgrown, hredundancy⟩ := grown_of_carryOutAll (h.inTurn t.numThreads) hwrap hend
    rw [List.map_map, List.map_map] at hgrown
    refine ⟨t', hruns, h.accumulated hgrown fun hne => hredundancy (.inl ?_)⟩
    rwa [Ne, List.map_eq_nil_iff]

/-- Two workers count triangles in one graph and then edges in another, into slots that are not empty. The slots are
filled in one way if the workers take turns, and in another if each has all its turns at once. -/
theorem carryOutAll_accumulates_two : ∃ (jobs : List Job) (t t' t'' : Tally), jobs.length = 2 ∧ Feasible jobs t ∧
    carryOutAll jobs t = some t' ∧ Engine.runAll jobs t = .ok t'' ∧ t'.results ≠ t''.results ∧
    Accumulated jobs t t' ∧ Accumulated jobs t t'' ∧ List.Forall₂ CountsAlone jobs [6, 2] ∧
    t.total = .ok 8 ∧ t'.total = .ok 16 ∧ t''.total = .ok 16 := by
  let e : Engine := ⟨⟨2, .never, .always, 1, 1, 1⟩, ⟨2, .singly, fun _ => .one⟩, rfl⟩
  let g : HostGraph := ⟨#[0, 2, 4, 6], #[1, 2, 0, 2, 0, 1], 2⟩
  let g' : HostGraph := ⟨#[0, 1, 2], #[1, 0], 1⟩
  let levels : Array Level := #[⟨.ofBase .all, none⟩, ⟨.ofBase (.adjacency 0), none⟩,
    ⟨(SetExpr.ofBase (.candidates 1)).intersect (.adjacency 1), none⟩]
  let levels' : Array Level := #[⟨.ofBase .all, none⟩, ⟨.ofBase (.adjacency 0), none⟩]
  let p : Plan := ⟨levels, LevelInfo.ofLevels levels, by decide +kernel, rfl⟩
  let p' : Plan := ⟨levels', LevelInfo.ofLevels levels', by decide +kernel, rfl⟩
  let first : List Turn := (List.replicate 88 [.work 0 1, .work 0 0]).flatten
  let last : List Turn := List.replicate 3 (.conclude 0)
  let jobs : List Job := [⟨e, g, p, first ++ last⟩, ⟨e, g', p', first ++ last⟩]
  let t : Tally := ⟨2, #[3, 5], #[0, 1], #[.zero, .zero], 7⟩
  have hg : HostGraph.ofAdjacency #[#[1, 2], #[0, 2], #[0, 1]] = .ok g := by decide +kernel
  have hg' : HostGraph.ofAdjacency #[#[1], #[0]] = .ok g' := by decide +kernel
  have hready : ∀ j ∈ jobs, j.Ready 2 := List.forall_mem_cons.mpr ⟨⟨⟨_, hg⟩, by decide, _, rfl⟩,
    List.forall_mem_singleton.mpr ⟨⟨_, hg'⟩, by decide, _, rfl⟩⟩
  have hroom : (jobs.map tuples).sum ≤ 3 ^ 3 + 2 ^ 2 := Nat.add_le_add Level.tupleCount_le Level.tupleCount_le
  have h : Feasible jobs t := ⟨⟨by decide, rfl, rfl, rfl⟩, hready,
    Nat.lt_of_le_of_lt (Nat.add_le_add_left hroom _) (by decide), by decide⟩
  have hfair : ∀ j ∈ jobs, Cooperation.Fair (.single 2) j.vertices j.schedule := by
    refine List.forall_mem_cons.mpr ⟨⟨first, last, rfl, by decide +kernel, by decide +kernel⟩, ?_⟩
    exact List.forall_mem_singleton.mpr ⟨first, last, rfl, by decide +kernel, by decide +kernel⟩
  obtain ⟨hside, horder⟩ := carryOutAll_accumulates h
  obtain ⟨hends, haccumulated⟩ := hside (by decide +kernel)
  obtain ⟨t', hend⟩ := hends hfair
  obtain ⟨t'', hruns, haccumulated'⟩ := horder (by decide +kernel)
  have hslots : (carryOutAll jobs t).map Tally.results = some #[6, 10] := by decide +kernel
  have hslots' : (Engine.runAll jobs t).map Tally.results = .ok #[11, 5] := by decide +kernel
  let alone : List Turn := List.replicate 64 (.work 0 0) ++ last
  let fresh : Tally := ⟨1, #[0], #[0], #[.zero], 0⟩
  have halone : List.Forall₂ CountsAlone jobs [6, 2] := by
    obtain ⟨t₁, hend₁, htotal₁⟩ : ∃ t₁, carryOut ⟨e, g, p, alone⟩ fresh = some t₁ ∧ t₁.total = .ok 6 :=
      Option.map_eq_some_iff.mp (by decide +kernel)
    obtain ⟨t₂, hend₂, htotal₂⟩ : ∃ t₂, carryOut ⟨e, g', p', alone⟩ fresh = some t₂ ∧ t₂.total = .ok 2 :=
      Option.map_eq_some_iff.mp (by decide +kernel)
    refine .cons ⟨1, fresh, e, alone, t₁, rfl, ⟨⟨_, hg⟩, by decide, _, rfl⟩, by decide +kernel, hend₁, htotal₁⟩ ?_
    exact .cons ⟨1, fresh, e, alone, t₂, rfl, ⟨⟨_, hg'⟩, by decide, _, rfl⟩, by decide +kernel, hend₂, htotal₂⟩ .nil
  rw [hend] at hslots
  rw [hruns] at hslots'
  have hresults : t'.results = #[6, 10] := Option.some.inj hslots
  have hresults' : t''.results = #[11, 5] := Except.ok.inj hslots'
  refine ⟨jobs, t, t', t'', rfl, h, hend, hruns, ?_, haccumulated t' hend, haccumulated', halone, rfl, ?_, ?_⟩
  · rw [hresults, hresults']
    decide
  · rw [Tally.total, hresults]
    rfl
  · rw [Tally.total, hresults']
    rfl

end Job

end PatternCount
