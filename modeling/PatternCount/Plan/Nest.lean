import PatternCount.Plan.Lookups
import PatternCount.Plan.Validity

/-!
# Plans

A `Plan` is a list of levels that has been checked, together with what its levels have to provide. Both are
part of the type, so a plan at hand can be carried out without further checks.
-/

namespace PatternCount

structure Plan where
  levels : Array Level
  info : Array LevelInfo
  valid : Level.check levels = .ok ()
  info_eq : info = LevelInfo.ofLevels levels
deriving DecidableEq

namespace Plan

def ofLevels (levels : Array Level) : Except PlanError Plan :=
  match h : Level.check levels with
  | .ok () => .ok ⟨levels, LevelInfo.ofLevels levels, h, rfl⟩
  | .error e => .error e

def depth (p : Plan) : Nat := p.levels.size

def cacheCount (p : Plan) : Nat := (p.levels.toList.filter fun level => level.cache.isSome).length

/-! ## Showing a plan -/

end Plan

def SetRef.render : SetRef → String
  | all => "V"
  | adjacency p => s!"N(v{p})"
  | candidates l => s!"C{l}"
  | cached c p => s!"M{c}(v{p})"

def SetOp.render : SetOp → String
  | intersect r => " & " ++ r.render
  | subtract r => " - " ++ r.render

def CacheSpec.render : CacheSpec → String
  | ⟨some parent⟩ => s!" [cache from M{parent}]"
  | ⟨none⟩ => " [cache]"

namespace Plan

def renderMarks (mark : String) (positions : List Nat) : String :=
  String.join (positions.map fun p => s!" {mark}v{p}")

def renderLevel (k : Nat) (level : Level) : String :=
  let e := level.candidates
  s!"C{k} = " ++ e.base.render ++ String.join (e.ops.map SetOp.render) ++ renderMarks "<" e.upper
    ++ renderMarks ">" e.lower ++ renderMarks "!" e.exclude ++ (level.cache.elim "" CacheSpec.render) ++ "\n"

/-- The plan with a line for each level. -/
def render (p : Plan) : String :=
  String.join (p.levels.toList.zipIdx.map fun (level, k) => renderLevel k level)

end Plan

end PatternCount
