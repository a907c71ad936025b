import PatternCount.Json.Basic

/-!
# Shapes of JSON values

What a reader asks of a value before it looks inside: a word, a list, a record with known fields
(`fields?`), or a variant (`variant?`). A record may be written as an object, whose fields stand in any
order among others that are not known, or as an array of the known fields in order, the last ones left off.
A known field cannot be repeated; where a reader asks for one field only and takes what was written last, it
is `last?`. A variant is its name alone, or an object whose one field is named for it.
-/

namespace PatternCount.Json

def word? : Json → Option Nat
  | .num n => n.word?
  | _ => none

def double? : Json → Option Float
  | .num n => n.double?
  | _ => none

def list? : Json → Option (List Json)
  | .arr items => some items
  | _ => none

/-- The values of a field, one for each time it is written. -/
def valuesOf (name : String) (fields : List (Option String × Json)) : List Json :=
  fields.filterMap fun (k, v) => if k = some name then some v else none

/-- The value of a field that is written at most once: `none` if it is repeated. -/
def field? (name : String) (fields : List (Option String × Json)) : Option (Option Json) :=
  match valuesOf name fields with
  | [] => some none
  | [v] => some (some v)
  | _ => none

/-- The value of a field as it was written last. -/
def last? (name : String) : Json → Option Json
  | .obj fields => (valuesOf name fields).getLast?
  | _ => none

/-- The values of the known fields of a record, in the order of their names. -/
def fields? (names : List String) : Json → Option (List (Option Json))
  | .obj fields => if fields.all (·.1.isSome) then names.mapM (field? · fields) else none
  | .arr items =>
      if items.length ≤ names.length then
        some (items.map some ++ List.replicate (names.length - items.length) none)
      else
        none
  | _ => none

def variant? : Json → Option (String × Option Json)
  | .str (some name) => some (name, none)
  | .obj [(some name, v)] => some (name, some v)
  | _ => none

def isNothing : Option Json → Bool
  | none => true
  | some .null => true
  | some _ => false

/-- A field that has a default, read if it is there. -/
def fieldOr {α : Type} (default : α) (read? : Json → Option α) : Option Json → Option α
  | none => some default
  | some v => read? v

/-- A value that may be missing, written `null` where it is. -/
def optional? {α : Type} (read? : Json → Option α) : Json → Option (Option α)
  | .null => some none
  | v => (read? v).map some

/-- A list whose items are read alike. -/
def listOf? {α : Type} (read? : Json → Option α) (v : Json) : Option (List α) := do
  (← v.list?).mapM read?

end PatternCount.Json
