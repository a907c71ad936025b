import PatternCount.AdjacencyCache.Basic

/-!
# Bound vertices

While a plan is carried out, every level that has been entered leaves a `Frame`: the vertex it has bound, the
candidates it came from, and what was prepared for the levels further in. The frames of a branch are kept
innermost first, and `frameAt` finds the one of a level.
-/

namespace PatternCount

structure Frame where
  level : Nat
  vertex : Nat
  index : Nat
  candidates : VertexSet
  /-- The cache over the candidates, if one was built. -/
  cache : Option AdjacencyCache
  /-- For every cache that is asked for this level's vertex, the positions of all candidates in it. -/
  positions : Array (Array Nat)

def frameAt : (frames : List Frame) → (level : Nat) → Except Fault Frame
  | [], level => .error (.missingFrame level)
  | frame :: outer, level =>
      if level < frame.level then frameAt outer level
      else if frame.level = level then .ok frame
      else .error (.missingFrame level)

/-- The buffers of a level, whose storage is used again each time the level is entered. -/
structure Buffers where
  set : Array Nat
  spare : Array Nat
  excluded : Array Nat
  positions : Array (Array Nat)
deriving DecidableEq, Repr

def Buffers.empty : Buffers := ⟨#[], #[], #[], #[]⟩

end PatternCount
