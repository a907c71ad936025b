import PatternCount.AdjacencyCache.Reuse
import PatternCount.HostGraph
import PatternCount.VertexSet.Algebra

/-!
# Adjacency caches

An `AdjacencyCache` over a set of vertices holds for each of them its row in the host graph, restricted to a
second set (`within`). Rows are addressed by the position of their vertex, so a deeper level of a search
reads the restricted row of a bound vertex without intersecting again. A cache can be built from the host
graph (`build`) or narrowed from a cache over a larger set (`derive`).
-/

namespace PatternCount

/-- The rows of `vertices`, restricted to `within`, one after another in `storage`. -/
structure AdjacencyCache where
  vertices : VertexSet
  within : VertexSet
  offsets : Array Nat
  storage : Array Nat
  /-- How often each row is expected to be read. -/
  reuse : Binary64
deriving DecidableEq

namespace AdjacencyCache

/-! ## Building -/

/-- What has been built so far: where the rows begin, the rows, and the buffer for the next one. -/
structure Builder where
  offsets : Array Nat
  storage : Array Nat
  buffer : Array Nat

/-- Appends the rows of the listed vertices, the first of which is at position `i`. -/
def appendRows (row : Nat → Nat → Array Nat → Except Fault (Array Nat)) :
    List Nat → (i : Nat) → Builder → Except Fault Builder
  | [], _, made => .ok made
  | v :: rest, i, made => do
      let buffer ← row i v made.buffer
      let storage := made.storage ++ buffer
      appendRows row rest (i + 1) ⟨made.offsets.push storage.size, storage, buffer⟩

/-- The cache whose row for the vertex `v` at position `i` is what `row i v` writes into its buffer. -/
def buildWith (vertices within : VertexSet)
    (row : Nat → Nat → Array Nat → Except Fault (Array Nat)) : Except Fault AdjacencyCache := do
  let made ← appendRows row vertices.toList 0 ⟨#[0], #[], #[]⟩
  return ⟨vertices, within, made.offsets, made.storage, Binary64.one⟩

/-- The cache over `vertices` of the rows of `graph` restricted to `within`. -/
def build (graph : HostGraph) (vertices within : VertexSet) : Except Fault AdjacencyCache :=
  buildWith vertices within fun _ v buffer => do
    return (← graph.neighbors v).intersectInto within none buffer

/-! ## Reading -/

variable (cache : AdjacencyCache)

def size : Nat := cache.vertices.size

def isEmpty : Bool := cache.vertices.isEmpty

def row (position : Nat) : Except Fault VertexSet :=
  if position < cache.size then do
    let start ← Fault.index cache.offsets position
    let stop ← Fault.index cache.offsets (position + 1)
    VertexSet.ofArray (← Fault.slice cache.storage start stop)
  else
    .error (.positionOutOfRange position cache.size)

def position? (v : Nat) : Option Nat := cache.vertices.position? v

/-- Appends the positions of the first list's elements in the second, both ascending and the second beginning
at position `j`, walking them side by side. -/
def mergePositions : List Nat → List Nat → (j : Nat) → Array Nat → Except Fault (Array Nat)
  | [], _, _, out => .ok out
  | v :: _, [], _, _ => .error (.vertexNotCached v)
  | v :: vs, w :: ws, j, out =>
      if w < v then mergePositions (v :: vs) ws (j + 1) out
      else if w = v then mergePositions vs ws (j + 1) (out.push j)
      else .error (.vertexNotCached v)
termination_by vs ws => vs.length + ws.length

def searchPositions : List Nat → Array Nat → Except Fault (Array Nat)
  | [], out => .ok out
  | v :: vs, out =>
      match cache.position? v with
      | some j => searchPositions vs (out.push j)
      | none => .error (.vertexNotCached v)

/-- Whether positions are found by walking the whole cache: it is to be reused, and the subset is no less
than an eighth of it. -/
def walks (subset : VertexSet) : Bool :=
  cache.reuse.toFloat > minReuse && cache.size ≤ Word.saturatingMul subset.size 8

/-- Replaces the contents of `out` by the positions of the members of `subset`, all of which have to be
cached. -/
def positionsInto (subset : VertexSet) (out : Array Nat) : Except Fault (Array Nat) :=
  if cache.walks subset then mergePositions subset.toList cache.vertices.toList 0 (out.take 0)
  else cache.searchPositions subset.toList (out.take 0)

/-! ## Narrowing -/

/-- The cache over `vertices` of this cache's rows restricted to `within`: `positions` holds the position of
each vertex in this cache. -/
def derive (positions : Array Nat) (vertices within : VertexSet) : Except Fault AdjacencyCache :=
  if positions.size = vertices.size then
    buildWith vertices within fun i _ buffer => do
      return (← cache.row (← Fault.index positions i)).intersectInto within none buffer
  else
    .error .positionCountMismatch

def withReuse (reuse : Binary64) : AdjacencyCache := { cache with reuse }

end AdjacencyCache

end PatternCount
