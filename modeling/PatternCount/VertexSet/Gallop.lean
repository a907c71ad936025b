import PatternCount.VertexSet.Basic
import PatternCount.Word

/-!
# Galloping search

`gallop xs start x` is the first index from `start` on whose element is not below `x`, or the size of `xs`.
It doubles its stride until a probe is not below `x` or lies past the end (`bracket`), then bisects between
the last two probes. Over a whole pass its cost grows with the logarithm of the gaps, so it is the right
search when few elements are looked up in many; `skewed` says when that is.
-/

namespace PatternCount.VertexSet

/-- How many times larger one side has to be before galloping through it pays. -/
def gallopRatio : Nat := 32

/-- Whether `large` is more than `gallopRatio` times `small`. -/
def skewed (small large : Nat) : Bool := Word.saturatingMul small gallopRatio < large

/-- The next probe after `hi`: a stride of `2 ^ doublings` further, though never past the largest word. -/
def nextProbe (xs : Array Nat) (doublings hi : Nat) : Nat :=
  min (hi + 1 <<< doublings) (max xs.size Word.max)

theorem lt_nextProbe {xs : Array Nat} {hi : Nat} (doublings : Nat) (h : hi < xs.size) :
    hi < nextProbe xs doublings hi := by
  have : 0 < 1 <<< doublings := by
    rw [Nat.one_shiftLeft]
    exact Nat.two_pow_pos doublings
  unfold nextProbe
  omega

/-- Probes at growing strides from `hi` on, as long as the probed element is below `x`. The answer is a pair:
everything before the first component is known to be below `x`, and the second is the last probe. -/
def bracket (xs : Array Nat) (x : Nat) (doublings lo hi : Nat) : Nat × Nat :=
  if h : hi < xs.size then
    if xs[hi] < x then bracket xs x (doublings + 1) (hi + 1) (nextProbe xs doublings hi) else (lo, hi)
  else
    (lo, hi)
termination_by xs.size - hi
decreasing_by
  have := lt_nextProbe doublings h
  omega

/-- The first index from `start` on whose element is not below `x`. -/
def gallop (xs : Array Nat) (start : Nat) (x : Nat) : Nat :=
  let (lo, hi) := bracket xs x 0 start start
  lowerBound xs x lo (min hi xs.size) (Nat.min_le_right ..)

end PatternCount.VertexSet
