import PatternCount.VertexSet.Gallop

/-!
# Intersection and difference

Both operations come in two forms: one writes the result into a buffer whose storage it reuses, the other
only counts. Each can leave out one vertex, `except`. The work is done by two folds over the result,
`foldCommon` and `foldDifference`, which walk the two sets side by side, or gallop through the larger one
when the sizes are far apart.
-/

namespace PatternCount.VertexSet

/-- The buffer with nothing in it, its storage kept for the next result. -/
def cleared (out : Array Nat) : Array Nat := out.take 0

/-! ## Common members -/

section Folds

variable {β : Type} (f : β → Nat → β) (except : Option Nat)

/-- Folds over the common elements of two ascending lists, walking them side by side. -/
@[specialize]
def mergeCommon : List Nat → List Nat → β → β
  | x :: xs, y :: ys, acc =>
      if x < y then mergeCommon xs (y :: ys) acc
      else if y < x then mergeCommon (x :: xs) ys acc
      else mergeCommon xs ys (if except ≠ some x then f acc x else acc)
  | _, _, acc => acc
termination_by xs ys => xs.length + ys.length

/-- Folds over the elements of an ascending list that are in `large` from index `start` on, galloping from
each to the next. -/
@[specialize]
def gallopCommon (large : Array Nat) : List Nat → (start : Nat) → β → β
  | [], _, acc => acc
  | x :: xs, start, acc =>
      let j := gallop large start x
      match large[j]? with
      | none => acc
      | some y => gallopCommon large xs j (if y = x ∧ except ≠ some x then f acc x else acc)

/-- Folds over the members of both sets other than `except`, in ascending order. -/
@[inline]
def foldCommon (a b : VertexSet) (init : β) : β :=
  let (small, large) := if a.size ≤ b.size then (a, b) else (b, a)
  if small.isEmpty then init
  else if skewed small.size large.size then gallopCommon f except large.members small.toList 0 init
  else mergeCommon f except a.toList b.toList init

/-! ## Members of one set only -/

/-- Folds over the elements of the first ascending list that are not in the second, walking them side by
side. -/
@[specialize]
def mergeDifference : List Nat → List Nat → β → β
  | [], _, acc => acc
  | x :: xs, ys, acc =>
      let rest := ys.dropWhile (· < x)
      mergeDifference xs rest (if rest.head? ≠ some x ∧ except ≠ some x then f acc x else acc)

/-- Folds over the elements of an ascending list that are not in `large` from index `start` on, galloping
from each to the next. -/
@[specialize]
def gallopDifference (large : Array Nat) : List Nat → (start : Nat) → β → β
  | [], _, acc => acc
  | x :: xs, start, acc =>
      let j := gallop large start x
      gallopDifference large xs j (if large[j]? ≠ some x ∧ except ≠ some x then f acc x else acc)

/-- Folds over the members of `a` that are not in `b`, other than `except`, in ascending order. -/
@[inline]
def foldDifference (a b : VertexSet) (init : β) : β :=
  if b.isEmpty || skewed a.size b.size then gallopDifference f except b.members a.toList 0 init
  else mergeDifference f except a.toList b.toList init

end Folds

/-! ## The operations -/

def intersectInto (a b : VertexSet) (except : Option Nat) (out : Array Nat) : Array Nat :=
  foldCommon Array.push except a b (cleared out)

def intersectCount (a b : VertexSet) (except : Option Nat) : Nat :=
  foldCommon (fun n _ => n + 1) except a b 0

/-- Replaces the contents of `out` by the members of `a` that are not in `b`, other than `except`. -/
def subtractInto (a b : VertexSet) (except : Option Nat) (out : Array Nat) : Array Nat :=
  foldDifference Array.push except a b (cleared out)

/-- One if `except` names a member of `a` that is not in `b`, else zero. -/
def exceptedFrom (a b : VertexSet) : (except : Option Nat) → Nat
  | none => 0
  | some x => if a.contains x && !b.contains x then 1 else 0

/-- The number of members of `a` that are not in `b`, other than `except`: it is found from the number of
common members, so nothing is walked beyond what an intersection walks. -/
def subtractCount (a b : VertexSet) (except : Option Nat) : Except Fault Nat := do
  let kept ← if b.isEmpty then pure a.size else Word.checkedSub a.size (a.intersectCount b none)
  Word.checkedSub kept (exceptedFrom a b except)

end PatternCount.VertexSet
