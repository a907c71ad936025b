import PatternCount.Plan.Basic

/-!
# When a list of levels is a plan

`Level.check` accepts the lists of levels that can be carried out: level 0 ranges over all vertices, every
other level refers to earlier levels only, and a cache is read only for vertices and sets that lie within the
candidates it was built over. Errors name the first level that is at fault and the first fault in it.
-/

namespace PatternCount

inductive RefError where
  | allAsOperand
  | unboundAdjacency (position : Nat)
  | laterCandidates (level : Nat)
  | unboundLookup (position : Nat)
  | noUsableCache (cache position : Nat)
  /-- The vertex looked up need not be a candidate of the level that built the cache. -/
  | vertexOutsideCache (cache position : Nat)
  | lookupWithoutCandidates
  /-- The running set need not lie within the candidates of the level that built the cache. -/
  | baseOutsideCache (cache base : Nat)
deriving DecidableEq, Repr

def RefError.message : RefError → String
  | allAsOperand => "every-vertex set used as an operand"
  | unboundAdjacency position => s!"adjacency of unbound position {position}"
  | laterCandidates level => s!"candidates of later level {level}"
  | unboundLookup position => s!"cached lookup of unbound position {position}"
  | noUsableCache cache position => s!"level {cache} builds no cache usable for position {position}"
  | vertexOutsideCache cache position =>
      s!"vertex at position {position} is not drawn from level {cache}'s candidates"
  | lookupWithoutCandidates => "cached lookups need a candidate-set base"
  | baseOutsideCache cache base =>
      s!"base candidates of level {base} are not within level {cache}'s candidates"

inductive PlanError where
  | noLevels
  | constrainedRoot
  | cachingRoot
  | allAsBase (level : Nat)
  | lookupAsBase (level : Nat)
  | badReference (level : Nat) (cause : RefError)
  | unboundConstraint (level position : Nat)
  | cachingLast (level : Nat)
  | parentNotCaching (level parent : Nat)
  /-- The parent of a cache does not hold the rows of all candidates. -/
  | parentOutsideChain (level parent : Nat)
deriving DecidableEq, Repr

namespace PlanError

/-- The text of an error, without the cause of a bad reference. -/
def headline : PlanError → String
  | noLevels => "plan has no levels"
  | constrainedRoot => "level 0 must iterate every vertex with no further constraints"
  | cachingRoot => "level 0 cannot build a cache"
  | allAsBase level => s!"level {level}: only level 0 may start from every vertex"
  | lookupAsBase level => s!"level {level}: a cached lookup cannot be a base"
  | badReference level _ => s!"level {level}"
  | unboundConstraint level position => s!"level {level}: constraint on unbound position {position}"
  | cachingLast level => s!"level {level}: the last level cannot build a cache"
  | parentNotCaching level parent => s!"level {level}: cache parent {parent} is not an earlier caching level"
  | parentOutsideChain level parent =>
      s!"level {level}: cache parent {parent} does not contain this level's candidates"

/-- The whole text of an error. -/
def message : PlanError → String
  | badReference level cause => s!"level {level}: " ++ cause.message
  | e => e.headline

end PlanError

namespace Level

section Checks

variable (levels : Array Level)

/-- The set that level `k`, whose base is `base`, refers to is known there, and in the case of a cache holds
what it is read for. -/
def checkRef (k : Nat) (base : SetRef) : SetRef → Except RefError Unit
  | .all => .error .allAsOperand
  | .adjacency p => if p < k then .ok () else .error (.unboundAdjacency p)
  | .candidates l => if l < k then .ok () else .error (.laterCandidates l)
  | .cached c p =>
      if ¬p < k then .error (.unboundLookup p)
      else if ¬(1 ≤ c ∧ c ≤ p ∧ isCaching levels c) then .error (.noUsableCache c p)
      else if c ∉ baseChain levels p then .error (.vertexOutsideCache c p)
      else
        match base with
        | .candidates q => if c ∈ baseChain levels q then .ok () else .error (.baseOutsideCache c q)
        | _ => .error .lookupWithoutCandidates

def checkBase (k : Nat) : SetRef → Except PlanError Unit
  | .all => .error (.allAsBase k)
  | .cached _ _ => .error (.lookupAsBase k)
  | _ => .ok ()

def checkRefs (k : Nat) (base : SetRef) : List SetRef → Except PlanError Unit
  | [] => .ok ()
  | r :: rest => do
      (checkRef levels k base r).mapError (.badReference k)
      checkRefs k base rest

def checkConstraints (k : Nat) (positions : List Nat) : Except PlanError Unit :=
  match positions.find? (k ≤ ·) with
  | some p => .error (.unboundConstraint k p)
  | none => .ok ()

/-- The parent of a cache at level `k` is an earlier cache that holds what it is narrowed from. -/
def checkParent (k : Nat) : Option Nat → Except PlanError Unit
  | none => .ok ()
  | some parent =>
      if ¬(parent < k ∧ isCaching levels parent) then .error (.parentNotCaching k parent)
      else if parent ∈ baseChain levels k then .ok ()
      else .error (.parentOutsideChain k parent)

/-- A cache at level `k` is of use to a later level. -/
def checkCache (k : Nat) : Option CacheSpec → Except PlanError Unit
  | none => .ok ()
  | some spec => if k + 1 < levels.size then checkParent levels k spec.parent else .error (.cachingLast k)

def checkInner (k : Nat) (level : Level) : Except PlanError Unit := do
  let e := level.candidates
  checkBase k e.base
  checkRefs levels k e.base e.refs
  checkConstraints k e.constrained
  checkCache levels k level.cache

def checkFrom (k : Nat) : List Level → Except PlanError Unit
  | [] => .ok ()
  | level :: rest => do
      checkInner levels k level
      checkFrom (k + 1) rest

end Checks

def checkRoot (root : Level) : Except PlanError Unit :=
  if root.candidates ≠ .ofBase .all then .error .constrainedRoot
  else if root.cache.isSome then .error .cachingRoot
  else .ok ()

/-- Whether the levels can be carried out, and what is wrong if they cannot. -/
def check (levels : Array Level) : Except PlanError Unit :=
  match levels.toList with
  | [] => .error .noLevels
  | root :: rest => do
      checkRoot root
      checkFrom levels 1 rest

end Level

end PatternCount
