import PatternCount.Bench.Report

/-!
# Command line

`bench --report-only` writes a report of what has been measured below `target/criterion` in the current
directory. This module reads the directory into a `FileTree`, and writes what has changed in it back.
-/

namespace PatternCount.CommandLine

/-- What stands at a directory entry; directly below it only what is wanted. A file that cannot be read counts
as an empty one. -/
partial def treeAt (wanted : String → Bool) (entry : IO.FS.DirEntry) : IO FileTree := do
  if ← entry.path.isDir then
    let entries := (← entry.path.readDir).toList.filter fun inner => wanted inner.fileName
    return .dir (← entries.mapM fun inner => do return (inner.fileName, ← treeAt (fun _ => true) inner))
  else
    return .file (← try IO.FS.readFile entry.path catch _ => pure "")

def currentTree : IO FileTree := do
  let entries := (← (← IO.currentDir).readDir).toList.filter fun entry =>
    entry.fileName = "target" ∨ entry.fileName = Bench.Report.reportDirectory
  return .dir (← entries.mapM fun entry => do
    let wanted := fun name => entry.fileName ≠ "target" || name = "criterion"
    return (entry.fileName, ← treeAt wanted entry))

def say : Bench.Report.Notice → IO Unit
  | .progress text => IO.println text
  | .problem text => IO.eprintln text

def saveFile (t : FileTree) (path : String) : IO Unit :=
  match t.read path with
  | .ok content => do
      IO.FS.createDirAll Bench.Report.reportDirectory
      IO.FS.writeFile path content
  | .error _ => pure ()

/-- Makes a report, and answers with the exit code. -/
def report : IO UInt32 := do
  let made := Bench.Report.make (← currentTree)
  made.notices.forM say
  saveFile made.files Bench.Report.jsonPath
  saveFile made.files Bench.Report.tablePath
  match made.failure with
  | none => return 0
  | some e => do
      IO.eprintln s!"Error: {e.message}"
      return 1

end PatternCount.CommandLine

def main (args : List String) : IO UInt32 :=
  match args with
  | ["bench", "--report-only"] => PatternCount.CommandLine.report
  | _ => do
      IO.eprintln "usage: bench --report-only"
      return 2
