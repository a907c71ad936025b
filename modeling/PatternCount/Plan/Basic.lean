/-!
# Loop nests as data

A plan is a nest of loops. Level `k` binds position `k` to a vertex of its candidate set, and its `SetExpr`
says how that set is made from the vertices and sets bound at earlier levels: start from a `base`, keep what
lies between the bounds, apply the operations from left to right, and leave out the vertices bound at the
excluded positions. A level may ask for an adjacency cache over its candidates.

`baseChain` follows bases that are the candidates of earlier levels. Every set on such a chain contains the
sets before it, which is what makes a cache over the one usable for the others.
-/

namespace PatternCount

/-- A set that an expression reads. -/
inductive SetRef where
  | all
  | adjacency (position : Nat)
  | candidates (level : Nat)
  /-- The row of the vertex bound at `position`, restricted to the candidates of level `cache` and read from
  the cache built there. -/
  | cached (cache position : Nat)
deriving DecidableEq, Repr

inductive SetOp where
  | intersect (operand : SetRef)
  | subtract (operand : SetRef)
deriving DecidableEq, Repr

namespace SetOp

def operand : SetOp → SetRef
  | intersect r => r
  | subtract r => r

def withOperand (r : SetRef) : SetOp → SetOp
  | intersect _ => intersect r
  | subtract _ => subtract r

end SetOp

/-- How the candidates of a level are made. -/
structure SetExpr where
  base : SetRef
  ops : List SetOp
  /-- Positions whose vertices the candidates lie below. -/
  upper : List Nat
  /-- Positions whose vertices the candidates lie above. -/
  lower : List Nat
  /-- Positions whose vertices are no candidates. -/
  exclude : List Nat
deriving DecidableEq, Repr

namespace SetExpr

/-- The base, whole. -/
def ofBase (base : SetRef) : SetExpr := ⟨base, [], [], [], []⟩

def intersect (e : SetExpr) (operand : SetRef) : SetExpr := { e with ops := e.ops ++ [.intersect operand] }

def subtract (e : SetExpr) (operand : SetRef) : SetExpr := { e with ops := e.ops ++ [.subtract operand] }

def below (e : SetExpr) (position : Nat) : SetExpr := { e with upper := e.upper ++ [position] }

def above (e : SetExpr) (position : Nat) : SetExpr := { e with lower := e.lower ++ [position] }

def excluding (e : SetExpr) (position : Nat) : SetExpr := { e with exclude := e.exclude ++ [position] }

def refs (e : SetExpr) : List SetRef := e.base :: e.ops.map SetOp.operand

/-- The positions at whose vertices the expression looks. -/
def constrained (e : SetExpr) : List Nat := e.upper ++ e.lower ++ e.exclude

end SetExpr

/-- A cache over the candidates of a level, perhaps narrowed from that of an earlier level. -/
structure CacheSpec where
  parent : Option Nat
deriving DecidableEq, Repr

structure Level where
  candidates : SetExpr
  cache : Option CacheSpec
deriving DecidableEq, Repr

namespace Level

/-- The level whose set, if it is the base of level `k`, holds the candidates of level `k`. -/
def baseLevel? (levels : Array Level) (k : Nat) : Option Nat :=
  match levels[k]? with
  | some ⟨⟨.candidates q, _, _, _, _⟩, _⟩ => some q
  | _ => none

/-- The levels met by following bases from level `k` towards the outside, itself first. -/
def baseChain (levels : Array Level) (k : Nat) : List Nat :=
  match baseLevel? levels k with
  | some q => if q < k then k :: baseChain levels q else [k]
  | none => [k]
termination_by k

def isCaching (levels : Array Level) (k : Nat) : Bool :=
  match levels[k]? with
  | some level => level.cache.isSome
  | none => false

end Level

end PatternCount
