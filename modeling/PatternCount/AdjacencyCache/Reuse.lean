/-!
# Expected reuse of a cache

`estimateReuse size distances` guesses how often each row of a cache over `size` vertices will be read. The
list holds one distance for every lookup in the plan that the cache answers: how many levels below the cache
the lookup is made. A lookup one level down reads each row once, and each further level multiplies the
readings by the expected size of the sets in between. The guess decides whether a cache is built; it never
changes a count.
-/

namespace PatternCount.AdjacencyCache

/-- The part of a candidate set that is expected to survive one more level. -/
def expectedDensity : Float := 0.2

/-- A cache with no more reuse than this does not pay. -/
def minReuse : Float := 1.0

/-- The power of `a`, times `acc`, by repeated squaring from the lowest bit of the exponent up. -/
def scaledPower (acc a : Float) (exponent : Nat) : Float :=
  let acc := if exponent % 2 = 1 then acc * a else acc
  if exponent / 2 = 0 then acc else scaledPower acc (a * a) (exponent / 2)
termination_by exponent
decreasing_by omega

/-- The power of `a`; a negative exponent gives the reciprocal of the positive power. -/
def power (a : Float) (exponent : Int) : Float :=
  let r := scaledPower 1.0 a exponent.natAbs
  if exponent < 0 then 1.0 / r else r

def signed32 (n : Nat) : Int := Int.bmod n 0x100000000

/-- The expected number of readings of each row. -/
def estimateReuse (size : Nat) (distances : List Nat) : Float :=
  let fanout := max (size.toUInt64.toFloat * expectedDensity) 1.0
  distances.foldl (fun sum d => sum + power fanout (signed32 (d - 1))) 0.0

end PatternCount.AdjacencyCache
