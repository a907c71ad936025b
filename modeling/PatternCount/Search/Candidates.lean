import PatternCount.Config.Basic
import PatternCount.Plan.Nest
import PatternCount.Search.Frame

/-!
# Candidate sets

`evaluate` makes the candidates that an expression describes, given the vertices bound so far, and
`countCandidates` counts them without making the last set. Both write intermediate sets into the buffers of
the level, whatever these held before. A lookup in a cache that was not built falls back to the host graph,
whose row holds the cached one.
-/

namespace PatternCount

/-- How the candidates of a level, by their indices, are split into jobs that are done side by side. It may be
different at each place that a search gets to, so it is given the frames there. -/
structure Sharing where
  jobs : (frames : List Frame) → (count : Nat) → List (List Nat)
  flatten_jobs : ∀ frames count, (jobs frames count).flatten = List.range count

/-- Each candidate is a job. -/
def Sharing.singly : Sharing where
  jobs := fun _ count => (List.range count).map fun i => [i]
  flatten_jobs := fun _ count => by rw [← List.flatMap_def, List.flatMap_singleton']

/-- A search: the plan that is carried out, the graph in which, and what does not change its result. -/
structure Search where
  graph : HostGraph
  plan : Plan
  vertices : VertexSet
  /-- The number of candidates above which a level is shared out between workers. -/
  threshold : Nat
  sharing : Sharing
  policy : CachePolicy
  vertices_eq : vertices = graph.vertices

namespace Search

variable (s : Search)

def ofConfig (graph : HostGraph) (plan : Plan) (c : Config) (sharing : Sharing) : Search :=
  ⟨graph, plan, graph.vertices, c.fanOut.threshold graph, sharing, c.cache, rfl⟩

/-! ## Sets that expressions read -/

/-- The position of the vertex of `bound`, the frame of level `p`, in the cache of level `c`. -/
def cachedPosition? (bound : Frame) (c p : Nat) : Except Fault (Option Nat) :=
  if p = c then .ok (some bound.index)
  else do
    let info ← Fault.index s.plan.info p
    return do
      let slot ← info.lookups.idxOf? c
      (← bound.positions[slot]?)[bound.index]?

def cachedRow? (holder bound : Frame) (c p : Nat) : Except Fault (Option VertexSet) := do
  match holder.cache with
  | none => return none
  | some cache =>
      match ← s.cachedPosition? bound c p with
      | none => return none
      | some position => return some (← cache.row position)

def resolve (frames : List Frame) : SetRef → Except Fault VertexSet
  | .all => .ok s.vertices
  | .adjacency p => do s.graph.neighbors (← frameAt frames p).vertex
  | .candidates l => do return (← frameAt frames l).candidates
  | .cached c p => do
      let bound ← frameAt frames p
      let holder ← frameAt frames c
      match ← s.cachedRow? holder bound c p with
      | some row => return row
      | none => s.graph.neighbors bound.vertex

/-- The run cut off at the vertices bound at the listed positions: above them, and at them. -/
def cutAbove (frames : List Frame) : List Nat → VertexSet.Run → Except Fault VertexSet.Run
  | [], run => .ok run
  | p :: rest, run => do cutAbove frames rest (run.below (← frameAt frames p).vertex)

/-- The run cut off at the vertices bound at the listed positions: below them, and at them. -/
def cutBelow (frames : List Frame) : List Nat → VertexSet.Run → Except Fault VertexSet.Run
  | [], run => .ok run
  | p :: rest, run => do cutBelow frames rest (run.above (← frameAt frames p).vertex)

def boundedBase (frames : List Frame) (e : SetExpr) : Except Fault VertexSet.Run := do
  cutBelow frames e.lower (← cutAbove frames e.upper (.whole (← s.resolve frames e.base)))

def excludedVertices (frames : List Frame) (e : SetExpr) : Except Fault VertexSet := do
  return .ofUnsorted (← e.exclude.mapM fun p => do return (← frameAt frames p).vertex)

/-! ## Operations -/

/-- Writes the result of an operation on a set into a buffer, leaving out one vertex. -/
def apply (frames : List Frame) (op : SetOp) (set : VertexSet) (except : Option Nat) (out : Array Nat) :
    Except Fault (Array Nat) := do
  match op with
  | .intersect r => return set.intersectInto (← s.resolve frames r) except out
  | .subtract r => return set.subtractInto (← s.resolve frames r) except out

/-- Applies operations to the set in the first buffer; results go to the two buffers in turn, the last one to
the first buffer of the answer. -/
def applyAll (frames : List Frame) : List SetOp → (out spare : Array Nat) →
    Except Fault (Array Nat × Array Nat)
  | [], out, spare => .ok (out, spare)
  | op :: rest, out, spare => do
      applyAll frames rest (← s.apply frames op (← VertexSet.ofArray out) none spare) out

/-- Applies operations to a set; the answer is the set after them, and the two buffers. -/
def applyTo (frames : List Frame) (set : VertexSet) : List SetOp → (out spare : Array Nat) →
    Except Fault (VertexSet × Array Nat × Array Nat)
  | [], out, spare => .ok (set, out, spare)
  | op :: rest, out, spare => do
      let (out, spare) ← s.applyAll frames rest (← s.apply frames op set none out) spare
      return (← VertexSet.ofArray out, out, spare)

/-- The only member of a set that has no other. -/
def only? (set : VertexSet) : Option Nat :=
  match set.toList with
  | [x] => some x
  | _ => none

/-! ## Making and counting -/

/-- Puts the candidates of an expression into the buffer for the set. -/
def evaluate (frames : List Frame) (e : SetExpr) (b : Buffers) : Except Fault Buffers := do
  let excluded ← excludedVertices frames e
  let base ← s.boundedBase frames e
  let b := { b with excluded := excluded.members }
  match e.ops.getLast? with
  | none => return { b with set := base.toSet.members.filter fun v => !excluded.contains v }
  | some last =>
      -- The last operation reads from the spare buffer, so that it can write the set.
      let (set, spare, out) ← s.applyTo frames base.toSet e.ops.dropLast b.spare b.set
      match only? excluded with
      | some x => return { b with set := ← s.apply frames last set (some x) out, spare }
      | none =>
          let out ← s.apply frames last set none out
          return { b with set := out.filter fun v => !excluded.contains v, spare }

/-- Whether the vertices that an operation keeps of a set would hold `x`, where `x` is in the set. -/
def keeps (op : SetOp) (operand : VertexSet) (x : Nat) : Bool :=
  match op with
  | .intersect _ => operand.contains x
  | .subtract _ => !operand.contains x

/-- The number of vertices that an operation keeps of a set, leaving out one vertex. -/
def countKept (op : SetOp) (set operand : VertexSet) (except : Option Nat) : Except Fault Nat :=
  match op with
  | .intersect _ => .ok (set.intersectCount operand except)
  | .subtract _ => set.subtractCount operand except

/-- The number of candidates of an expression, and the buffers afterwards. -/
def countCandidates (frames : List Frame) (e : SetExpr) (b : Buffers) : Except Fault (Nat × Buffers) := do
  let excluded ← excludedVertices frames e
  let base ← s.boundedBase frames e
  let b := { b with excluded := excluded.members }
  match e.ops.getLast? with
  | none => return (← Word.checkedSub base.size (excluded.toList.filter base.contains).length, b)
  | some last =>
      let (set, spare, out) ← s.applyTo frames base.toSet e.ops.dropLast b.spare b.set
      let b := { b with set := out, spare }
      let operand ← s.resolve frames last.operand
      match only? excluded with
      | some x => return (← countKept last set operand (some x), b)
      | none =>
          let hits := (excluded.toList.filter fun x => set.contains x && keeps last operand x).length
          return (← Word.checkedSub (← countKept last set operand none) hits, b)

end Search

end PatternCount
