import PatternCount.Text.Hex
import PatternCount.Text.Unshown

/-!
# Characters in error texts

A character is shown in single quotes. The quote, the backslash and a few control characters are escaped by a
letter, and whatever leaves no mark of its own is shown by its number.
-/

namespace PatternCount.Text

/-- A character as it stands between single quotes. -/
def escaped (c : Char) : List Char :=
  if c = '\x00' then ['\\', '0']
  else if c = '\t' then ['\\', 't']
  else if c = '\r' then ['\\', 'r']
  else if c = '\n' then ['\\', 'n']
  else if c = '\'' then ['\\', '\'']
  else if c = '\\' then ['\\', '\\']
  else if isUnshown c then '\\' :: 'u' :: '\x7b' :: Hex.digits c.toNat ++ ['\x7d']
  else [c]

def shown (c : Char) : String := String.ofList ('\'' :: escaped c ++ ['\''])

end PatternCount.Text
