import PatternCount.Config.Basic
import PatternCount.Json.Shape

/-!
# Configurations in JSON

A configuration is a record, every field of which has a default. The fan-out is a record with a `mode`, by
which the other fields are read; those that the mode does not have are dropped, but since they may come
before it they have to be values that can be held. `Config.parse` reads a text and checks what it says.
-/

namespace PatternCount

namespace CachePolicy

def name : CachePolicy → String
  | costModel => "cost_model"
  | always => "always"
  | never => "never"

def toJson (p : CachePolicy) : Json := .text p.name

def ofName? : String → Option CachePolicy
  | "cost_model" => some costModel
  | "always" => some always
  | "never" => some never
  | _ => none

def ofJson? (v : Json) : Option CachePolicy := do
  let (name, content) ← v.variant?
  if Json.isNothing content then ofName? name else none

end CachePolicy

namespace FanOut

def toJson : FanOut → Json
  | adaptive factor => .record [("mode", .text "adaptive"), ("factor", .ofNat factor)]
  | always => .record [("mode", .text "always")]
  | never => .record [("mode", .text "never")]

/-- How deep a field of the fan-out may be nested, standing two containers deep itself, where the limit is
127 containers. -/
def contentDepth : Nat := 125

/-- The fan-out with a mode and the other fields. -/
def ofMode? (mode : String) (factor : Option Json) : Option FanOut :=
  match mode with
  | "adaptive" => do return .adaptive (← (← factor).word?)
  | "always" => some .always
  | "never" => some .never
  | _ => none

/-- The fan-out of a record written as an object. -/
def ofFields? (fields : List (Option String × Json)) : Option FanOut := do
  let others := fields.filter (·.1 ≠ some "mode")
  if Json.areFieldsStorable contentDepth others then
    match ← Json.field? "mode" fields with
    | some (.str (some mode)) =>
        -- A repeated factor matters only to the mode that reads it.
        let factor ← if mode = "adaptive" then Json.field? "factor" others else some none
        ofMode? mode factor
    | _ => none
  else
    none

/-- The fan-out of a record written as an array: the mode, and the factor if it has one. -/
def ofItems? : List Json → Option FanOut
  | [.str (some "adaptive"), factor] => ofMode? "adaptive" (some factor)
  | [.str (some "always")] => some .always
  | [.str (some "never")] => some .never
  | _ => none

def ofJson? : Json → Option FanOut
  | .obj fields => ofFields? fields
  | .arr items => ofItems? items
  | _ => none

end FanOut

namespace Config

def fieldNames : List String :=
  ["num_threads", "fan_out", "cache", "chunk_size", "queue_capacity", "steal_batch"]

def toJson (c : Config) : Json :=
  .record [
    ("num_threads", .ofNat c.numThreads),
    ("fan_out", c.fanOut.toJson),
    ("cache", c.cache.toJson),
    ("chunk_size", .ofNat c.chunkSize),
    ("queue_capacity", .ofNat c.queueCapacity),
    ("steal_batch", .ofNat c.stealBatch)]

def ofJson? (v : Json) : Option Config := do
  match ← v.fields? fieldNames with
  | [numThreads, fanOut, cache, chunkSize, queueCapacity, stealBatch] =>
      let default : Config := {}
      return {
        numThreads := ← Json.fieldOr default.numThreads Json.word? numThreads
        fanOut := ← Json.fieldOr default.fanOut FanOut.ofJson? fanOut
        cache := ← Json.fieldOr default.cache CachePolicy.ofJson? cache
        chunkSize := ← Json.fieldOr default.chunkSize Json.word? chunkSize
        queueCapacity := ← Json.fieldOr default.queueCapacity Json.word? queueCapacity
        stealBatch := ← Json.fieldOr default.stealBatch Json.word? stealBatch }
  | _ => none

def parse (text : String) : Except ConfigError Config := do
  match (Json.parse? text).bind ofJson? with
  | some c =>
      c.check
      return c
  | none => throw .malformed

/-- The configuration as text, a field on each line. -/
def render (c : Config) : String := c.toJson.pretty

end Config

end PatternCount
