/-!
# File trees

A `FileTree` is what a working directory holds: files by their content, directories by their entries in
order. `FileTree.find` follows a path through it and says what stands in the way where it cannot; `read` and
`write` are for files, `makeDirectory` is for directories.
-/

namespace PatternCount

inductive FileError where
  | notFound
  | isDirectory
  | notDirectory
  | alreadyExists
  /-- The path is none: it holds the character that ends one. -/
  | invalidInput
  | invalidFilename
deriving DecidableEq, Repr

def FileError.message : FileError → String
  | notFound => "io NotFound"
  | isDirectory => "io IsADirectory"
  | notDirectory => "io NotADirectory"
  | alreadyExists => "io AlreadyExists"
  | invalidInput => "io InvalidInput"
  | invalidFilename => "io InvalidFilename"

/-- A file, or a directory with named entries. -/
inductive FileTree where
  | file (content : String)
  | dir (entries : List (String × FileTree))
deriving Inhabited

namespace FileTree

abbrev Entries := List (String × FileTree)

def child? (name : String) (entries : Entries) : Option FileTree :=
  (entries.find? (·.1 = name)).map (·.2)

/-- The entries with one of them put in, in place of the one of that name if there is one. -/
def putEntry (name : String) (t : FileTree) : Entries → Entries
  | [] => [(name, t)]
  | (k, old) :: rest => if k = name then (k, t) :: rest else (k, old) :: putEntry name t rest

/-- The names in a path. An empty one stands for the place itself, as a dot does. -/
def components (path : String) : List String := path.splitOn "/"

def maxNameBytes : Nat := 255

def maxPathBytes : Nat := 4095

/-- What can be relied on to stand at the root: the device that holds nothing, and a place for files that are
not kept. -/
def root : FileTree := dir [("dev", dir [("null", file "")]), ("tmp", dir [])]

/-- Follows names from a place on; the directories above it stand innermost first, and the outermost is its own
parent. -/
def walk : (above : List FileTree) → (place : FileTree) → List String → Except FileError FileTree
  | _, place, [] => .ok place
  | _, file _, _ :: _ => .error .notDirectory
  | above, dir entries, name :: rest =>
      if name = "" ∨ name = "." then walk above (dir entries) rest
      else if name = ".." then
        match above with
        | [] => walk [] (dir entries) rest
        | outer :: above => walk above outer rest
      else if maxNameBytes < name.utf8ByteSize then .error .invalidFilename
      else
        match child? name entries with
        | some t => walk (dir entries :: above) t rest
        | none => .error .notFound

/-- What stands at a path from the directory `t`. Nothing is known of the directories above it, and little of
the root. -/
def find (t : FileTree) (path : String) : Except FileError FileTree :=
  if path.toList.contains '\x00' then .error .invalidInput
  else if maxPathBytes < path.utf8ByteSize then .error .invalidFilename
  else
    match components path with
    | [""] => .error .notFound
    | "" :: rest => walk [] root rest
    | names => walk [dir []] t names

def read (t : FileTree) (path : String) : Except FileError String :=
  match t.find path with
  | .ok (file content) => .ok content
  | .ok (dir _) => .error .isDirectory
  | .error e => .error e

def contentAt? (t : FileTree) (names : List String) : Option String :=
  match walk [] t names with
  | .ok (file content) => some content
  | _ => none

mutual

/-- All files in a tree that stands at the end of some names, which are given last name first: the names that
lead to each file, its own first, and its content. -/
def files (names : List String) : FileTree → List (List String × String)
  | file content => [(names, content)]
  | dir entries => filesOf names entries

def filesOf (names : List String) : List (String × FileTree) → List (List String × String)
  | [] => []
  | (name, t) :: rest => files (name :: names) t ++ filesOf names rest

end

/-- The tree with something put at the end of some names, directories being made on the way. A file in the way
gives place to a directory. -/
def graft (t : FileTree) (leaf : FileTree) : List String → FileTree
  | [] => leaf
  | name :: rest =>
      let entries := match t with
        | dir entries => entries
        | file _ => []
      let inner := (child? name entries).getD (dir [])
      dir (putEntry name (graft inner leaf rest) entries)

/-- The names in a path that lead on from where they stand. -/
def steps (path : String) : List String := (components path).filter fun name => name ≠ "" ∧ name ≠ "."

/-- The tree of some files and directories, given by their paths. -/
def ofPaths (leaves : List (String × FileTree)) : FileTree :=
  leaves.foldl (fun t (path, leaf) => t.graft leaf (steps path)) (dir [])

def makeDirectory (t : FileTree) (name : String) : Except FileError FileTree :=
  match t.find name with
  | .ok (dir _) => .ok t
  | .ok (file _) => .error .alreadyExists
  | .error .notFound => .ok (t.graft (dir []) [name])
  | .error e => .error e

def write (t : FileTree) (path content : String) : Except FileError FileTree :=
  match t.find path with
  | .ok (dir _) => .error .isDirectory
  | .ok (file _) => .ok (t.graft (file content) (components path))
  | .error .notFound => .ok (t.graft (file content) (components path))
  | .error e => .error e

end FileTree

end PatternCount
