import PatternCount.Json.Shape
import PatternCount.Plan.Nest

/-!
# Plans in JSON

A plan is written as the list of its levels. Levels, expressions and cache specifications are records, and
sets and operations are variants; only the candidates of a level and the base of an expression have no
default. `Plan.parse` reads a text, checks the levels that it writes, and only then asks whether the text
ends there: what is wrong with a plan is said even where something follows it.
-/

namespace PatternCount

inductive PlanTextError where
  | malformed
  | invalid (cause : PlanError)
deriving DecidableEq, Repr

def PlanTextError.message : PlanTextError → String
  | malformed => "malformed"
  | invalid cause => cause.message

/-- The text of an error for one who asked for a plan, without the cause of a bad reference. -/
def PlanTextError.planMessage : PlanTextError → String
  | malformed => "invalid plan JSON: malformed"
  | invalid cause => "invalid plan JSON: " ++ cause.headline

/-! ## Writing -/

def SetRef.toJson : SetRef → Json
  | all => .text "all"
  | adjacency p => .record [("adj", .ofNat p)]
  | candidates l => .record [("candidates", .ofNat l)]
  | cached c p => .record [("cached", .record [("cache", .ofNat c), ("pos", .ofNat p)])]

def SetOp.toJson : SetOp → Json
  | intersect r => .record [("intersect", r.toJson)]
  | subtract r => .record [("subtract", r.toJson)]

def SetExpr.toJson (e : SetExpr) : Json :=
  .record [
    ("base", e.base.toJson),
    ("ops", .arr (e.ops.map SetOp.toJson)),
    ("upper", .arr (e.upper.map Json.ofNat)),
    ("lower", .arr (e.lower.map Json.ofNat)),
    ("exclude", .arr (e.exclude.map Json.ofNat))]

/-- A value that may be missing. -/
def Json.ofOption {α : Type} (toJson : α → Json) : Option α → Json
  | none => .null
  | some a => toJson a

def CacheSpec.toJson (spec : CacheSpec) : Json :=
  .record [("parent", Json.ofOption Json.ofNat spec.parent)]

def Level.toJson (level : Level) : Json :=
  .record [
    ("candidates", level.candidates.toJson),
    ("cache", Json.ofOption CacheSpec.toJson level.cache)]

def Plan.toJson (p : Plan) : Json := .arr (p.levels.toList.map Level.toJson)

/-- The plan on one line. -/
def Plan.toText (p : Plan) : String := p.toJson.compact

/-! ## Reading -/

/-- The lookup in a cache that a record describes. -/
def SetRef.ofLookup? (v : Json) : Option SetRef := do
  match ← v.fields? ["cache", "pos"] with
  | [some cache, some position] => return .cached (← cache.word?) (← position.word?)
  | _ => none

def SetRef.ofJson? (v : Json) : Option SetRef := do
  match ← v.variant? with
  | ("all", content) => if Json.isNothing content then some .all else none
  | ("adj", some p) => return .adjacency (← p.word?)
  | ("candidates", some l) => return .candidates (← l.word?)
  | ("cached", some lookup) => SetRef.ofLookup? lookup
  | _ => none

def SetOp.ofJson? (v : Json) : Option SetOp := do
  match ← v.variant? with
  | ("intersect", some r) => return .intersect (← SetRef.ofJson? r)
  | ("subtract", some r) => return .subtract (← SetRef.ofJson? r)
  | _ => none

def SetExpr.ofJson? (v : Json) : Option SetExpr := do
  match ← v.fields? ["base", "ops", "upper", "lower", "exclude"] with
  | [some base, ops, upper, lower, exclude] =>
      return {
        base := ← SetRef.ofJson? base
        ops := ← Json.fieldOr [] (Json.listOf? SetOp.ofJson?) ops
        upper := ← Json.fieldOr [] (Json.listOf? Json.word?) upper
        lower := ← Json.fieldOr [] (Json.listOf? Json.word?) lower
        exclude := ← Json.fieldOr [] (Json.listOf? Json.word?) exclude }
  | _ => none

def CacheSpec.ofJson? (v : Json) : Option CacheSpec := do
  match ← v.fields? ["parent"] with
  | [parent] => return ⟨← Json.fieldOr none (Json.optional? Json.word?) parent⟩
  | _ => none

def Level.ofJson? (v : Json) : Option Level := do
  match ← v.fields? ["candidates", "cache"] with
  | [some candidates, cache] =>
      return {
        candidates := ← SetExpr.ofJson? candidates
        cache := ← Json.fieldOr none (Json.optional? CacheSpec.ofJson?) cache }
  | _ => none

def Level.listOfJson? (v : Json) : Option (List Level) := Json.listOf? Level.ofJson? v

/-- The levels at the front of a text, and the tokens that follow them. -/
def Level.ofText? (text : String) : Option (List Level × List Token) := do
  let (v, rest) ← Json.ofTokens? (Token.scan text.toList)
  return (← Level.listOfJson? v, rest)

def Plan.parse (text : String) : Except PlanTextError Plan :=
  match Level.ofText? text with
  | none => .error .malformed
  | some (levels, rest) =>
      match Plan.ofLevels levels.toArray with
      | .error cause => .error (.invalid cause)
      | .ok p => if rest.isEmpty then .ok p else .error .malformed

/-- The plan whose levels a text lists; a text that goes on after them is no list of levels. -/
def Plan.ofLevelText (text : String) : Except PlanTextError Plan :=
  match Level.ofText? text with
  | some (levels, []) => (Plan.ofLevels levels.toArray).mapError .invalid
  | _ => .error .malformed

end PatternCount
