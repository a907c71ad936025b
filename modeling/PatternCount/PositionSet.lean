/-!
# Sets of positions

Patterns are small, so a set of their positions is kept as the bits of one number: position `i` is a member
if bit `i` is set. Every operation comes with the lemma that says which positions are members afterwards, and
`toList` lists the members in ascending order.
-/

namespace PatternCount

/-- A finite set of positions, as the bits of a number. -/
structure PositionSet where
  bits : Nat
deriving DecidableEq, Repr

namespace PositionSet

instance : Membership Nat PositionSet := ⟨fun s i => s.bits.testBit i = true⟩

instance (i : Nat) (s : PositionSet) : Decidable (i ∈ s) :=
  inferInstanceAs (Decidable (s.bits.testBit i = true))

theorem mem_def {i : Nat} {s : PositionSet} : i ∈ s ↔ s.bits.testBit i = true := Iff.rfl

def empty : PositionSet := ⟨0⟩

def insert (s : PositionSet) (i : Nat) : PositionSet := ⟨s.bits ||| 1 <<< i⟩

def union (s t : PositionSet) : PositionSet := ⟨s.bits ||| t.bits⟩

def inter (s t : PositionSet) : PositionSet := ⟨s.bits &&& t.bits⟩

def diff (s t : PositionSet) : PositionSet := ⟨s.bits ^^^ (s.bits &&& t.bits)⟩

def below (k : Nat) : PositionSet := ⟨1 <<< k - 1⟩

def ofList (is : List Nat) : PositionSet := is.foldl insert empty

def toList (s : PositionSet) : List Nat := (List.range (s.bits.log2 + 1)).filter (· ∈ s)

def first? (s : PositionSet) : Option Nat := s.toList.head?

def card (s : PositionSet) : Nat := s.toList.length

def isEmpty (s : PositionSet) : Bool := s.bits = 0

def isSubset (s t : PositionSet) : Bool := (s.diff t).isEmpty

/-! ## Members -/

@[simp] theorem not_mem_empty (i : Nat) : i ∉ empty := by
  simp [mem_def, empty]

@[simp] theorem mem_insert {s : PositionSet} {i j : Nat} : j ∈ s.insert i ↔ j ∈ s ∨ j = i := by
  rw [mem_def, mem_def, insert, Nat.one_shiftLeft, Nat.testBit_or, Bool.or_eq_true, Nat.testBit_two_pow,
    decide_eq_true_eq, @eq_comm _ i j]

@[simp] theorem mem_union {s t : PositionSet} {i : Nat} : i ∈ s.union t ↔ i ∈ s ∨ i ∈ t := by
  simp [mem_def, union]

@[simp] theorem mem_inter {s t : PositionSet} {i : Nat} : i ∈ s.inter t ↔ i ∈ s ∧ i ∈ t := by
  simp [mem_def, inter]

@[simp] theorem mem_diff {s t : PositionSet} {i : Nat} : i ∈ s.diff t ↔ i ∈ s ∧ i ∉ t := by
  cases hs : s.bits.testBit i <;> cases ht : t.bits.testBit i <;> simp [mem_def, diff, hs, ht]

@[simp] theorem mem_below {k i : Nat} : i ∈ below k ↔ i < k := by
  simp [mem_def, below, Nat.one_shiftLeft, Nat.testBit_two_pow_sub_one]

@[simp] theorem mem_toList {s : PositionSet} {i : Nat} : i ∈ s.toList ↔ i ∈ s := by
  simp only [toList, List.mem_filter, List.mem_range, decide_eq_true_eq, and_iff_right_iff_imp]
  intro h
  have h2 : 2 ^ i ≤ s.bits := Nat.ge_two_pow_of_testBit h
  have hne : s.bits ≠ 0 := by
    have := Nat.two_pow_pos i
    omega
  exact Nat.lt_succ_of_le ((Nat.le_log2 hne).mpr h2)

end PositionSet

end PatternCount
