import PatternCount.Plan.Basic

/-!
# Who looks up what

To carry out a plan one has to know, before a level is entered, which caches will be asked for its vertex and
how often its own cache will be read. `LevelInfo.ofLevels` collects both from the whole plan.
-/

namespace PatternCount

/-- What the rest of the plan needs of a level. -/
structure LevelInfo where
  /-- The levels, other than this one, whose caches are asked for this level's vertex. -/
  lookups : List Nat
  /-- For every reading of this level's cache, how many levels further in it is made. -/
  cacheDistances : List Nat
deriving DecidableEq, Repr

namespace LevelInfo

def empty : LevelInfo := ⟨[], []⟩

def addLookup (cache : Nat) (info : LevelInfo) : LevelInfo :=
  if cache ∈ info.lookups then info else { info with lookups := info.lookups ++ [cache] }

def addDistance (distance : Nat) (info : LevelInfo) : LevelInfo :=
  { info with cacheDistances := info.cacheDistances ++ [distance] }

/-- Notes what a reference of level `k` needs. -/
def noteRef (k : Nat) (infos : Array LevelInfo) : SetRef → Array LevelInfo
  | .cached c p =>
      let infos := if p = c then infos else infos.modify p (addLookup c)
      infos.modify c (addDistance (k - c))
  | _ => infos

/-- Notes what the references of the listed levels need, the first of them being level `k`. -/
def noteRefs (k : Nat) (infos : Array LevelInfo) : List Level → Array LevelInfo
  | [] => infos
  | level :: rest => noteRefs (k + 1) (level.candidates.refs.foldl (noteRef k) infos) rest

/-- Notes that caches with a parent ask it for their vertices. The first of the listed levels is level `k`. -/
def noteParents (k : Nat) (infos : Array LevelInfo) : List Level → Array LevelInfo
  | [] => infos
  | level :: rest =>
      let infos :=
        match level.cache with
        | some ⟨some parent⟩ => infos.modify k (addLookup parent)
        | _ => infos
      noteParents (k + 1) infos rest

def ofLevels (levels : Array Level) : Array LevelInfo :=
  let infos := noteRefs 0 (Array.replicate levels.size empty) levels.toList
  noteParents 0 infos levels.toList

end LevelInfo

end PatternCount
