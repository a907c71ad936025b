import PatternCount.Fault

/-!
# Machine words

Counts, sizes and vertex ranges live in 64-bit words. They are natural numbers here, and the three ways in
which an operation can meet the end of the word are functions: `checkedAdd` and `checkedMul` refuse a result
that does not fit, `wrappingAdd` keeps its low 64 bits, `saturatingAdd` and `saturatingMul` stop at the
largest word. Vertex numbers are 32-bit: `truncate32` keeps the low 32 bits. A table can only be as large as
words can address, which `checkTable` looks after.
-/

namespace PatternCount.Word

def size : Nat := 0x10000000000000000

def max : Nat := size - 1

/-- The most bytes that a table can have. -/
def maxBytes : Nat := 0x7FFFFFFFFFFFFFFF

/-- A table of that many entries, each of `width` bytes, can be addressed. -/
def checkTable (entries width : Nat) : Except Fault Unit :=
  if entries * width ≤ maxBytes then .ok () else .error .capacityOverflow

def checkedAdd (a b : Nat) : Except Fault Nat :=
  if a + b < size then .ok (a + b) else .error .addOverflow

def checkedSub (a b : Nat) : Except Fault Nat :=
  if b ≤ a then .ok (a - b) else .error .subOverflow

def checkedMul (a b : Nat) : Except Fault Nat :=
  if a * b < size then .ok (a * b) else .error .mulOverflow

def wrappingAdd (a b : Nat) : Nat := (a + b) % size

/-- The sum, or the largest word if it is larger still. -/
def saturatingAdd (a b : Nat) : Nat := min (a + b) max

/-- The product, or the largest word if it is larger still. -/
def saturatingMul (a b : Nat) : Nat := min (a * b) max

def checkedSum (xs : List Nat) : Except Fault Nat := xs.foldlM checkedAdd 0

def truncate32 (a : Nat) : Nat := a % 0x100000000

def ceilDiv (a b : Nat) : Nat := a / b + if a % b = 0 then 0 else 1

end PatternCount.Word
