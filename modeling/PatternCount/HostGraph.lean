import PatternCount.Binary64
import PatternCount.VertexSet.Basic
import PatternCount.Word

/-!
# Host graphs

A `HostGraph` holds, for every vertex, the ascending row of the vertices it points to. The rows stand one
after another in one array, and `offsets` says where each begins; the last offset is where the last row
ends. `HostGraph.ofAdjacency` takes the rows as they are, so the graph may be asymmetric and may hold
loops; `HostGraph.ofEdges` stores each undirected edge in both rows and drops loops and repetitions.
-/

namespace PatternCount

/-- A graph whose rows stand one after another in `entries`, row `v` from `offsets[v]` to
`offsets[v + 1]`. -/
structure HostGraph where
  offsets : Array Nat
  entries : Array Nat
  maxDegree : Nat
deriving DecidableEq, Repr

namespace HostGraph

/-! ## Making a graph -/

/-- The largest number of vertices: one number is kept back so that the count itself is a vertex number. -/
def maxVertexCount : Nat := 0xFFFFFFFF

/-- Where each row begins, and where the last one ends, if the first begins at `start`. -/
def rowOffsets (start : Nat) : List (Array Nat) → List Nat
  | [] => [start]
  | row :: rest => start :: rowOffsets (start + row.size) rest

def checkRow (count : Nat) (row : Array Nat) (u : Nat) : Except Fault Unit :=
  if Ascending row.toList then
    match row.toList.find? (count ≤ ·) with
    | some v => .error (.entryOutOfRange u v count)
    | none => .ok ()
  else
    .error (.unsortedRow u)

/-- Checks the rows one after another, the first of them being row `u`. -/
def checkRows (count : Nat) : (rows : List (Array Nat)) → (u : Nat) → Except Fault Unit
  | [], _ => .ok ()
  | row :: rest, u => do
      checkRow count row u
      checkRows count rest (u + 1)

def ofAdjacency (rows : Array (Array Nat)) : Except Fault HostGraph := do
  if maxVertexCount < rows.size then throw (.tooManyVertices rows.size)
  checkRows rows.size rows.toList 0
  return {
    offsets := (rowOffsets 0 rows.toList).toArray
    entries := rows.flatten
    maxDegree := rows.toList.foldl (fun most row => max most row.size) 0 }

def addEntry (rows : Array (Array Nat)) (u v : Nat) : Array (Array Nat) :=
  rows.modify u (·.push v)

/-- Adds an undirected edge to the rows, unless it is a loop. -/
def addEdge (rows : Array (Array Nat)) (edge : Nat × Nat) : Except Fault (Array (Array Nat)) :=
  let (u, v) := edge
  if u < rows.size ∧ v < rows.size then
    .ok (if u = v then rows else addEntry (addEntry rows u v) v u)
  else
    .error (.endpointOutOfRange u v rows.size)

/-- The bytes that are set aside for a row while edges are collected. -/
def rowWidth : Nat := 24

def ofEdges (count : Nat) (edges : List (Nat × Nat)) : Except Fault HostGraph := do
  Word.checkTable count rowWidth
  let rows ← edges.foldlM addEdge (Array.replicate count #[])
  ofAdjacency (rows.map fun row => (VertexSet.ofUnsorted row.toList).members)

/-! ## Reading a graph -/

section Reading

variable (g : HostGraph)

def vertexCount : Nat := g.offsets.size - 1

/-- The number of row entries: twice the number of edges if the graph is undirected. -/
def entryCount : Nat := g.entries.size

/-- The mean length of a row, zero if there is none. -/
def averageDegree : Float :=
  if g.vertexCount = 0 then 0.0
  else g.entryCount.toUInt64.toFloat / g.vertexCount.toUInt64.toFloat

/-- Where the row of `v` begins and ends. -/
def rowBounds (v : Nat) : Except Fault (Nat × Nat) :=
  if h : v + 1 < g.offsets.size then
    have := Nat.lt_of_succ_lt h
    .ok (g.offsets[v], g.offsets[v + 1])
  else
    .error (.vertexOutOfRange v)

def degree (v : Nat) : Except Fault Nat := do
  let (start, stop) ← g.rowBounds v
  Word.checkedSub stop start

def neighbors (v : Nat) : Except Fault VertexSet := do
  let (start, stop) ← g.rowBounds v
  VertexSet.ofArray (← Fault.slice g.entries start stop)

def hasEdge (u v : Nat) : Except Fault Bool := do
  return (← g.neighbors u).contains v

def vertices : VertexSet := VertexSet.upTo g.vertexCount

end Reading

end HostGraph

end PatternCount
