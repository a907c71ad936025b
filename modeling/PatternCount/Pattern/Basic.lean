import PatternCount.Fault
import PatternCount.PositionSet
import PatternCount.Word

/-!
# Patterns

A `Pattern` is an undirected graph without loops on a few positions, counted from zero. Its edges are kept as
one row of positions for each position, and the type carries what makes the rows a pattern: they are
symmetric, no position is in its own row, and only positions below `size` occur. Patterns are made from a
list of edges by `ofEdges`; `clique`, `path` and `cycle` make the usual ones.
-/

namespace PatternCount

def maxPatternSize : Nat := 16

inductive PatternError where
  | sizeOutOfRange (size : Nat)
  | edgeOutOfRange (a b : Nat)
  | selfLoop (a : Nat)
  /-- A cycle has at least three positions. -/
  | shortCycle
  /-- A matrix holds a character other than its two digits; the text shows the character. -/
  | unexpectedCharacter (shown : String)
  | notSquare (cells : Nat)
  | notSymmetric (a b : Nat)
  /-- The list of edges would be larger than memory can be addressed. -/
  | tooManyEdges
deriving DecidableEq, Repr

def PatternError.message : PatternError → String
  | sizeOutOfRange size => s!"pattern size {size} outside 1..={maxPatternSize}"
  | edgeOutOfRange a b => s!"pattern edge {a}-{b} out of range"
  | selfLoop a => s!"pattern self-loop on {a}"
  | shortCycle => "a cycle needs at least 3 positions"
  | unexpectedCharacter shown => s!"unexpected character {shown} in adjacency matrix"
  | notSquare cells => s!"adjacency matrix of {cells} cells is not square"
  | notSymmetric a b => s!"adjacency matrix is not symmetric at ({a}, {b})"
  | tooManyEdges => Fault.capacityOverflow.message

/-- The row of position `a`, empty if there is none. -/
def rowOf (rows : Vector PositionSet maxPatternSize) (a : Nat) : PositionSet :=
  rows[a]?.getD .empty

/-- An undirected graph without loops on `size` positions. -/
structure Pattern where
  size : Nat
  rows : Vector PositionSet maxPatternSize
  size_pos : 0 < size
  size_le : size ≤ maxPatternSize
  symm : ∀ {a b}, b ∈ rowOf rows a → a ∈ rowOf rows b
  irrefl : ∀ a, a ∉ rowOf rows a
  lt_size : ∀ {a b}, b ∈ rowOf rows a → b < size
deriving DecidableEq

namespace Pattern

def row (p : Pattern) (a : Nat) : PositionSet := rowOf p.rows a

/-! ## Making a pattern -/

def edgeless (size : Nat) (size_pos : 0 < size) (size_le : size ≤ maxPatternSize) : Pattern where
  size
  rows := Vector.replicate maxPatternSize .empty
  size_pos
  size_le
  symm := by
    intro a b h
    simp only [rowOf, Vector.getElem?_replicate] at h
    split at h <;> simp at h
  irrefl := by
    intro a h
    simp only [rowOf, Vector.getElem?_replicate] at h
    split at h <;> simp at h
  lt_size := by
    intro a b h
    simp only [rowOf, Vector.getElem?_replicate] at h
    split at h <;> simp at h

def enter (rows : Vector PositionSet maxPatternSize) (a b : Nat) : Vector PositionSet maxPatternSize :=
  rows.set! a ((rowOf rows a).insert b)

theorem mem_rowOf_enter {rows : Vector PositionSet maxPatternSize} {a b x y : Nat}
    (ha : a < maxPatternSize) :
    y ∈ rowOf (enter rows a b) x ↔ y ∈ rowOf rows x ∨ (x = a ∧ y = b) := by
  by_cases hx : x = a
  · subst hx
    simp [enter, rowOf, ha]
  · have : (enter rows a b)[x]? = rows[x]? := by
      simp [enter, Ne.symm hx]
    simp [rowOf, this, hx]

def link (p : Pattern) (a b : Nat) (ha : a < p.size) (hb : b < p.size) (hne : a ≠ b) : Pattern :=
  have ha' : a < maxPatternSize := Nat.lt_of_lt_of_le ha p.size_le
  have hb' : b < maxPatternSize := Nat.lt_of_lt_of_le hb p.size_le
  { size := p.size
    rows := enter (enter p.rows a b) b a
    size_pos := p.size_pos
    size_le := p.size_le
    symm := by
      intro x y h
      rw [mem_rowOf_enter hb', mem_rowOf_enter ha'] at h ⊢
      rcases h with (h | h) | h
      · exact Or.inl (Or.inl (p.symm h))
      · exact Or.inr ⟨h.2, h.1⟩
      · exact Or.inl (Or.inr ⟨h.2, h.1⟩)
    irrefl := by
      intro x h
      rw [mem_rowOf_enter hb', mem_rowOf_enter ha'] at h
      rcases h with (h | h) | h
      · exact p.irrefl x h
      · exact hne (h.1.symm.trans h.2)
      · exact hne (h.2.symm.trans h.1)
    lt_size := by
      intro x y h
      rw [mem_rowOf_enter hb', mem_rowOf_enter ha'] at h
      rcases h with (h | h) | h
      · exact p.lt_size h
      · exact h.2 ▸ hb
      · exact h.2 ▸ ha }

/-- Adds the edges in turn, refusing the first that is none. -/
def addEdges (p : Pattern) : List (Nat × Nat) → Except PatternError Pattern
  | [] => .ok p
  | (a, b) :: rest =>
      if h : a < p.size ∧ b < p.size then
        if hne : a = b then .error (.selfLoop a) else (p.link a b h.1 h.2 hne).addEdges rest
      else
        .error (.edgeOutOfRange a b)

/-- The pattern without edges on `size` positions, for a size that a pattern can have. -/
def ofSize (size : Nat) : Except PatternError Pattern :=
  if h : 0 < size ∧ size ≤ maxPatternSize then .ok (edgeless size h.1 h.2)
  else .error (.sizeOutOfRange size)

def ofEdges (size : Nat) (edges : List (Nat × Nat)) : Except PatternError Pattern := do
  (← ofSize size).addEdges edges

def pathEdges (size : Nat) : List (Nat × Nat) := (List.range (size - 1)).map fun a => (a, a + 1)

def cliqueEdges (size : Nat) : List (Nat × Nat) :=
  (List.range size).flatMap fun a => (List.range' (a + 1) (size - (a + 1))).map fun b => (a, b)

def edgeWidth : Nat := 16

/-- The usual patterns have an edge from each position but the last to another, and before their size is looked
at there has to be room for these. -/
def checkRoom (size : Nat) : Except PatternError Unit :=
  (Word.checkTable (size - 1) edgeWidth).mapError fun _ => .tooManyEdges

def clique (size : Nat) : Except PatternError Pattern := do
  checkRoom size
  (← ofSize size).addEdges (cliqueEdges size)

def path (size : Nat) : Except PatternError Pattern := do
  checkRoom size
  (← ofSize size).addEdges (pathEdges size)

def cycle (size : Nat) : Except PatternError Pattern := do
  if size < 3 then throw .shortCycle
  checkRoom size
  (← ofSize size).addEdges (pathEdges size ++ [(size - 1, 0)])

/-! ## Reading a pattern -/

variable (p : Pattern)

def Adjacent (a b : Nat) : Prop := b ∈ p.row a

instance (a b : Nat) : Decidable (p.Adjacent a b) := inferInstanceAs (Decidable (b ∈ p.row a))

/-- Whether `a` and `b` are adjacent, for positions that a pattern can have. -/
def hasEdge (a b : Nat) : Except Fault Bool :=
  if maxPatternSize ≤ a then .error (.indexOutOfBounds maxPatternSize a)
  else if maxPatternSize ≤ b then .error .shiftOverflow
  else .ok (decide (p.Adjacent a b))

def neighbors (a : Nat) : Except Fault (List Nat) :=
  (List.range p.size).filterM fun b => p.hasEdge a b

/-- The number of edges: each is in two rows. -/
def edgeCount : Nat := ((List.range p.size).map fun a => (p.row a).card).foldl (· + ·) 0 / 2

def degree (a : Nat) : Nat := ((List.range p.size).filter fun b => p.Adjacent a b).length

/-- Spreads from the positions of `frontier`, the smallest first, to those adjacent to them that are not yet
`seen`, for no more than `steps` of them. -/
def spread : (steps : Nat) → (seen frontier : PositionSet) → PositionSet
  | 0, seen, _ => seen
  | steps + 1, seen, frontier =>
      match frontier.first? with
      | none => seen
      | some a =>
          let fresh := (p.row a).diff seen
          spread steps (seen.union fresh) ((frontier.diff (.ofList [a])).union fresh)

def reached : PositionSet := p.spread p.size (.ofList [0]) (.ofList [0])

/-- Whether every position can be reached from position zero. -/
def isConnected : Bool := p.reached.card = p.size

end Pattern

end PatternCount
