import PatternCount.Json.Token

/-!
# JSON values

A `Json` value keeps what its text says: numerals as they are written, and the fields of an object in order
with repetitions. `Json.ofTokens?` reads a value from the front of a list of tokens, and answers with the
tokens that follow it. `Json.chars` is the other direction, and with it come the two ways in which a value
is written, `compact` and `pretty`.
-/

namespace PatternCount

/-- A JSON value. A key or text is missing if its literal denotes no text. -/
inductive Json where
  | null
  | bool (b : Bool)
  | num (n : Numeral)
  | str (s : Option String)
  | arr (items : List Json)
  | obj (fields : List (Option String × Json))
deriving Inhabited

namespace Json

def ofNat (n : Nat) : Json := .num (.ofNat n)

def text (s : String) : Json := .str (some s)

def record (fields : List (String × Json)) : Json := .obj (fields.map fun (k, v) => (some k, v))

/-! ## Reading -/

/-- A container whose end has not been read: the items before the current one in reverse, or the fields
before the current one in reverse and its key. -/
inductive Opened where
  | array (items : List Json)
  | object (fields : List (Option String × Json)) (key : Option String)

/-- What may come next. The containers that are open stand innermost first. -/
inductive Expect where
  | value
  /-- A value, or the end of an array that has just been opened. -/
  | firstItem
  /-- A key, or the end of an object that has just been opened. -/
  | firstKey
  | key (fields : List (Option String × Json))
  | colon (fields : List (Option String × Json)) (key : Option String)
  /-- After a value: a comma, or the end of the container it stands in. -/
  | after (v : Json)

def ofToken? : Token → Option Json
  | .null => some .null
  | .bool b => some (.bool b)
  | .numeral n => some (.num n)
  | .text s => some (.str s)
  | _ => none

/-- What comes next once a value is to be read and a token is seen, with the containers then open. -/
def startValue? (t : Token) (opened : List Opened) : Option (Expect × List Opened) :=
  match t with
  | .openBracket => some (.firstItem, opened)
  | .openBrace => some (.firstKey, opened)
  | t => (ofToken? t).map fun v => (.after v, opened)

/-- What comes next after a token, with the containers then open. -/
def advance? (expect : Expect) (t : Token) (opened : List Opened) : Option (Expect × List Opened) :=
  match expect with
  | .value => startValue? t opened
  | .firstItem =>
      match t with
      | .closeBracket => some (.after (.arr []), opened)
      | t => startValue? t (.array [] :: opened)
  | .firstKey =>
      match t with
      | .closeBrace => some (.after (.obj []), opened)
      | .text k => some (.colon [] k, opened)
      | _ => none
  | .key fields =>
      match t with
      | .text k => some (.colon fields k, opened)
      | _ => none
  | .colon fields k =>
      match t with
      | .colon => some (.value, .object fields k :: opened)
      | _ => none
  | .after v =>
      match opened, t with
      | .array items :: outer, .comma => some (.value, .array (v :: items) :: outer)
      | .array items :: outer, .closeBracket => some (.after (.arr (v :: items).reverse), outer)
      | .object fields k :: outer, .comma => some (.key ((k, v) :: fields), outer)
      | .object fields k :: outer, .closeBrace => some (.after (.obj ((k, v) :: fields).reverse), outer)
      | _, _ => none

/-- Reads on from the middle of a value until it is complete. -/
def continue? : Expect → List Opened → List Token → Option (Json × List Token)
  | .after v, [], ts => some (v, ts)
  | _, _, [] => none
  | expect, opened, t :: ts =>
      match advance? expect t opened with
      | some (expect, opened) => continue? expect opened ts
      | none => none

/-- The value at the front of the tokens, and what follows it. -/
def ofTokens? (ts : List Token) : Option (Json × List Token) := continue? .value [] ts

def parse? (s : String) : Option Json :=
  match ofTokens? (Token.scan s.toList) with
  | some (v, []) => some v
  | _ => none

/-! ## Writing -/

/-- How a value is laid out: what stands after a container is opened, after a comma between items, before a
container is closed, and between a key and its value. The lines of a container are `depth` deep. -/
structure Layout where
  opening : (depth : Nat) → List Char
  between : (depth : Nat) → List Char
  closing : (depth : Nat) → List Char
  afterColon : List Char

def Layout.compact : Layout := ⟨fun _ => [], fun _ => [], fun _ => [], []⟩

def newLine (depth : Nat) : List Char := '\n' :: List.replicate (2 * depth) ' '

/-- Each item and field on a line of its own, two blanks further in than its container. -/
def Layout.pretty : Layout :=
  ⟨fun depth => newLine (depth + 1), fun depth => newLine (depth + 1), newLine, [' ']⟩

section Writing

variable (layout : Layout)

mutual

/-- A value in a layout, its first line being `depth` deep. -/
def chars (depth : Nat) : Json → List Char
  | .null => Token.null.chars
  | .bool b => (Token.bool b).chars
  | .num n => n.chars
  | .str s => Quoted.chars s
  | .arr [] => ['[', ']']
  | .arr (v :: rest) =>
      '[' :: layout.opening depth ++ chars (depth + 1) v ++ itemChars depth rest
        ++ layout.closing depth ++ [']']
  | .obj [] => ['\x7b', '\x7d']
  | .obj ((k, v) :: rest) =>
      '\x7b' :: layout.opening depth ++ Quoted.chars k ++ ':' :: layout.afterColon
        ++ chars (depth + 1) v ++ fieldChars depth rest ++ layout.closing depth ++ ['\x7d']

def itemChars (depth : Nat) : List Json → List Char
  | [] => []
  | v :: rest => ',' :: layout.between depth ++ chars (depth + 1) v ++ itemChars depth rest

def fieldChars (depth : Nat) : List (Option String × Json) → List Char
  | [] => []
  | (k, v) :: rest =>
      ',' :: layout.between depth ++ Quoted.chars k ++ ':' :: layout.afterColon
        ++ chars (depth + 1) v ++ fieldChars depth rest

end

end Writing

def compact (v : Json) : String := String.ofList (chars .compact 0 v)

def pretty (v : Json) : String := String.ofList (chars .pretty 0 v)

/-! ## Values that can be held in memory -/

mutual

/-- Whether every numeral has a value as a word or as a double, every literal denotes a text, and containers are
nested no deeper than `depth`. -/
def isStorable (depth : Nat) : Json → Bool
  | .null => true
  | .bool _ => true
  | .num n => n.word?.isSome || n.double?.isSome
  | .str s => s.isSome
  | .arr items => 0 < depth && areStorable (depth - 1) items
  | .obj fields => 0 < depth && areFieldsStorable (depth - 1) fields

def areStorable (depth : Nat) : List Json → Bool
  | [] => true
  | v :: rest => isStorable depth v && areStorable depth rest

def areFieldsStorable (depth : Nat) : List (Option String × Json) → Bool
  | [] => true
  | (k, v) :: rest => k.isSome && isStorable depth v && areFieldsStorable depth rest

end

/-- How deep the containers of a value that is held in memory may be nested. -/
def maxDepth : Nat := 127

def load? (s : String) : Option Json := (parse? s).filter (isStorable maxDepth)

end Json

end PatternCount
