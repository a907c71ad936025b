import PatternCount.Pattern.Basic
import PatternCount.Text.Blank
import PatternCount.Text.Shown

/-!
# Patterns as matrices

A pattern is written as its adjacency matrix, row after row, a one for each adjacent pair and a zero for each
other. Blanks may stand anywhere. A matrix has to be square and symmetric with zeros on its diagonal.
-/

namespace PatternCount.Pattern

/-- What a character says about a pair of positions. -/
def cell? (c : Char) : Except PatternError Bool :=
  if c = '0' then .ok false
  else if c = '1' then .ok true
  else .error (.unexpectedCharacter (Text.shown c))

/-- The number of rows of a square matrix with that many cells. -/
def side? (cells : Nat) : Option Nat :=
  (List.range' 1 maxPatternSize).find? fun n => n * n = cells

def entry (cells : Array Bool) (size a b : Nat) : Bool := cells.getD (a * size + b) false

/-- The edges from `a` to the listed positions, if the matrix agrees on both sides of its diagonal. -/
def rowEdges (cells : Array Bool) (size a : Nat) : List Nat → Except PatternError (List (Nat × Nat))
  | [] => .ok []
  | b :: rest =>
      if entry cells size a b = entry cells size b a then do
        let edges ← rowEdges cells size a rest
        return if entry cells size a b then (a, b) :: edges else edges
      else
        .error (.notSymmetric a b)

/-- The edges from the listed positions to later ones, if the matrix is that of a pattern. -/
def matrixEdges (cells : Array Bool) (size : Nat) : List Nat → Except PatternError (List (Nat × Nat))
  | [] => .ok []
  | a :: rest =>
      if entry cells size a a then .error (.selfLoop a)
      else do
        let edges ← rowEdges cells size a (List.range' (a + 1) (size - (a + 1)))
        return edges ++ (← matrixEdges cells size rest)

def ofMatrix (text : String) : Except PatternError Pattern := do
  let cells ← (text.toList.filter fun c => !Text.isBlank c).mapM cell?
  match side? cells.length with
  | none => throw (.notSquare cells.length)
  | some size => ofEdges size (← matrixEdges cells.toArray size (List.range size))

def toMatrix (p : Pattern) : String :=
  String.ofList <| (List.range p.size).flatMap fun a =>
    (List.range p.size).map fun b => if p.Adjacent a b then '1' else '0'

end PatternCount.Pattern
