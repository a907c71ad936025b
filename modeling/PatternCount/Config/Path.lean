import PatternCount.Config.Json
import PatternCount.FileTree

/-!
# Configuration files

Reading a configuration from a file can fail for the file's sake or for the configuration's; either way the
text of the error names the path as it was given.
-/

namespace PatternCount

inductive ConfigFileError where
  | unreadable (path : String) (cause : FileError)
  | invalid (path : String) (cause : ConfigError)
deriving DecidableEq, Repr

def ConfigFileError.message : ConfigFileError → String
  | unreadable path cause => s!"failed to read engine config {path}: " ++ cause.message
  | invalid path cause => s!"in {path}: " ++ cause.message

/-- The configuration in the file at `path`. -/
def Config.ofPath (files : FileTree) (path : String) : Except ConfigFileError Config :=
  match files.read path with
  | .error cause => .error (.unreadable path cause)
  | .ok content => (Config.parse content).mapError (.invalid path)

end PatternCount
