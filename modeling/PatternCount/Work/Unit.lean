/-!
# Units of work

The top level of a search ranges over all vertices. It is handed out in units, each a range of vertex numbers.
-/

namespace PatternCount

/-- The vertices from `lo` up to `hi`, out of the slice of the worker `owner`. -/
structure WorkUnit where
  lo : Nat
  hi : Nat
  owner : Nat
deriving DecidableEq, Repr

namespace WorkUnit

def size (u : WorkUnit) : Nat := u.hi - u.lo

def isEmpty (u : WorkUnit) : Bool := u.hi ≤ u.lo

def vertices (u : WorkUnit) : List Nat := List.range' u.lo u.size

end WorkUnit

end PatternCount
