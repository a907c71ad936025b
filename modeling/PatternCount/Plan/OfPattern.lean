import PatternCount.Pattern.Basic
import PatternCount.Plan.Nest

/-!
# From patterns to plans

`Plan.ofPattern` makes a plan that finds a pattern. It binds the positions in a greedy order (`bindingOrder`),
most bound neighbours first, so that every position but the first has a neighbour among the earlier ones. The
restrictions on vertex numbers are closed under transitivity (`closure`), so that each level knows all bounds
that earlier vertices set. The candidates of a level start from those of the latest earlier level all of whose
conditions it shares (`usableBase`), and only what that level does not yet ask for is added. Finally
adjacency that a cache can answer is read from one (`throughCaches`).
-/

namespace PatternCount

/-- What is asked of a plan besides the pattern. -/
structure CompileOptions where
  /-- Positions that are not adjacent have to be bound to vertices that are not. -/
  induced : Bool := false
  /-- The vertex at the first position of each pair has to be above the one at the second. -/
  restrictions : List (Nat × Nat) := []
  useCache : Bool := true
deriving DecidableEq, Repr

namespace CompileOptions

def restrict (o : CompileOptions) (a b : Nat) : CompileOptions :=
  { o with restrictions := o.restrictions ++ [(a, b)] }

def restrictionWidth : Nat := 16

/-- Asks for vertices that descend from position to position. -/
def descending (o : CompileOptions) (size : Nat) : Except Fault CompileOptions := do
  Word.checkTable (o.restrictions.length + (size - 1)) restrictionWidth
  return { o with restrictions := o.restrictions ++ (List.range (size - 1)).map fun a => (a, a + 1) }

end CompileOptions

/-- Why no plan was made for a pattern. -/
inductive CompileError where
  | disconnected
  | invalidRestriction (a b : Nat)
  /-- No neighbour of the position is bound before it. -/
  | unanchored (position : Nat)
  | invalid (cause : PlanError)
deriving DecidableEq, Repr

def CompileError.message : CompileError → String
  | disconnected => "pattern must be connected"
  | invalidRestriction a b => s!"invalid restriction ({a}, {b})"
  | unanchored position => s!"position {position} has no earlier neighbor"
  | invalid cause => cause.message

/-! ## The order in which positions are bound -/

namespace Pattern

variable (p : Pattern)

def boundNeighbors (bound : List Nat) (a : Nat) : Nat :=
  ((List.range p.size).filter fun b => p.Adjacent a b ∧ b ∈ bound).length

/-- Whether `a` is to be bound rather than `b`: it has more bound neighbours, or as many and more
neighbours. -/
def precedes (bound : List Nat) (a b : Nat) : Bool :=
  p.boundNeighbors bound b < p.boundNeighbors bound a
    || p.boundNeighbors bound a = p.boundNeighbors bound b && p.degree b < p.degree a

/-- The position to bind next, the first of those that no other precedes. -/
def next? (bound : List Nat) : (unbound : List Nat) → Option Nat
  | [] => none
  | a :: rest =>
      match next? bound rest with
      | some b => if p.precedes bound b a then some b else some a
      | none => some a

/-- Binds `count` of the unbound positions, after those in `bound`. -/
def bindFrom : (count : Nat) → (bound unbound : List Nat) → List Nat
  | 0, _, _ => []
  | count + 1, bound, unbound =>
      match p.next? bound unbound with
      | some a => a :: bindFrom count (a :: bound) (unbound.erase a)
      | none => []

def bindingOrder : List Nat := p.bindFrom p.size [] (List.range p.size)

end Pattern

/-! ## Bounds on vertices -/

namespace Restriction

/-- For each level the levels whose vertices are asked to be above its own. -/
def table (order : List Nat) (restrictions : List (Nat × Nat)) : Array PositionSet :=
  restrictions.foldl
    (fun above (a, b) => above.modify (order.idxOf b) (·.insert (order.idxOf a)))
    (Array.replicate order.length .empty)

/-- Adds what is above level `mid` to every row that has `mid` in it. -/
def closeOver (above : Array PositionSet) (mid : Nat) : Array PositionSet :=
  above.map fun row => if mid ∈ row then row.union (above.getD mid .empty) else row

/-- For each level the levels whose vertices have to be above its own, by any chain of restrictions. -/
def closure (above : Array PositionSet) : Array PositionSet :=
  (List.range above.size).foldl closeOver above

end Restriction

/-! ## Levels -/

/-- What a level asks of its vertex with regard to the vertices bound before it. -/
structure Demands where
  neighbors : PositionSet
  uppers : PositionSet
  lowers : PositionSet
deriving DecidableEq, Repr

namespace Demands

def none : Demands := ⟨.empty, .empty, .empty⟩

/-- What level `k` asks, in a pattern bound in the given order. -/
def ofLevel (p : Pattern) (order : List Nat) (above : Array PositionSet) (k : Nat) : Demands where
  neighbors := .ofList <| (List.range k).filter fun j => p.Adjacent (order.getD j 0) (order.getD k 0)
  uppers := (above.getD k .empty).inter (.below k)
  lowers := .ofList <| (List.range k).filter fun j => k ∈ above.getD j .empty

/-- Whether candidates for the demands `d` of level `k` can be found among those of level `p`, whose demands are
`e`: all that `e` asks, `d` asks too. If vertices that are not to be adjacent are taken away, the two have to
agree on those before `p`. -/
def sharedBy (induced : Bool) (d e : Demands) (p : Nat) : Bool :=
  e.neighbors.isSubset d.neighbors && e.uppers.isSubset d.uppers && e.lowers.isSubset d.lowers
    && (!induced || d.neighbors.inter (.below p) = e.neighbors)

end Demands

section Levels

variable (induced : Bool) (demands : Nat → Demands)

/-- The latest level before `k`, other than the first, whose candidates those of level `k` are among. -/
def usableBase? (k : Nat) : Option Nat :=
  (List.range' 1 (k - 1)).reverse.find? fun p => (demands k).sharedBy induced (demands p) p

/-- The operations on the candidates of level `k` that leave out what a base does not: `joined` are the levels
whose vertices they still have to be adjacent to, `parted` those whose vertices they have to differ from. -/
def remainingOps (joined parted : List Nat) : List SetOp :=
  joined.map (.intersect <| .adjacency ·)
    ++ if induced then parted.map (.subtract <| .adjacency ·) else []

/-- The candidates of level `k`, starting from a base that meets the demands `met` and leaves out the vertices
of the levels in `leftOut`. -/
def exprFrom (k : Nat) (base : SetRef) (met : Demands) (leftOut : PositionSet) : SetExpr :=
  let d := demands k
  let parted := (((PositionSet.below k).diff d.neighbors).diff leftOut).toList
  { base
    ops := remainingOps induced (d.neighbors.diff met.neighbors).toList parted
    upper := (d.uppers.diff met.uppers).toList
    lower := (d.lowers.diff met.lowers).toList
    exclude := parted }

/-- The candidates of level `k`. The base is the candidates of an earlier level or, where there is none to use,
the row of the first neighbour. -/
def exprOf? (k : Nat) : Option SetExpr :=
  match usableBase? induced demands k with
  | some p =>
      some (exprFrom induced demands k (.candidates p) (demands p)
        ((PositionSet.below p).diff (demands p).neighbors))
  | none => do
      let first ← (demands k).neighbors.first?
      return exprFrom induced demands k (.adjacency first) ⟨.ofList [first], .empty, .empty⟩ .empty

end Levels

/-! ## Caches -/

namespace Level

/-- The first level of a base chain from the outside, other than level 0, that is also on the chain of level
`position`. -/
def servingCache? (levels : Array Level) (base position : Nat) : Option Nat :=
  (baseChain levels base).reverse.find? fun c => 1 ≤ c && c ∈ baseChain levels position

/-- The operation, reading from a cache if one can serve it. -/
def throughCache (levels : Array Level) (base : Nat) (op : SetOp) : SetOp :=
  match op.operand with
  | .adjacency j =>
      if j = 0 then op
      else
        match servingCache? levels base j with
        | some c => op.withOperand (.cached c j)
        | none => op
  | _ => op

/-- The level with its operations reading from caches where they can. -/
def rerouted (levels : Array Level) (level : Level) : Level :=
  match level.candidates.base with
  | .candidates q =>
      { level with candidates := { level.candidates with
          ops := level.candidates.ops.map (throughCache levels q) } }
  | _ => level

def cachesRead (e : SetExpr) : List Nat :=
  e.ops.filterMap fun op =>
    match op.operand with
    | .cached c _ => some c
    | _ => none

/-- The nearest level that holds the candidates of level `k` and is one of those listed. -/
def enclosing? (levels : Array Level) (caching : List Nat) (k : Nat) : Option Nat :=
  (baseChain levels k).tail.find? fun l => 1 ≤ l && l ∈ caching

/-- The levels with adjacency read from caches where it can be, each cache narrowed from the nearest one that
encloses it. -/
def throughCaches (levels : Array Level) : Array Level :=
  let routed := levels.map (rerouted levels)
  let caching := routed.toList.flatMap fun level => cachesRead level.candidates
  routed.mapIdx fun k level =>
    if k ∈ caching then { level with cache := some ⟨enclosing? levels caching k⟩ } else level

end Level

/-! ## Plans -/

namespace Plan

def checkRestrictions (size : Nat) (restrictions : List (Nat × Nat)) : Except CompileError Unit :=
  match restrictions.find? fun (a, b) => ¬(a < size ∧ b < size ∧ a ≠ b) with
  | some (a, b) => .error (.invalidRestriction a b)
  | none => .ok ()

def levelsFor (p : Pattern) (o : CompileOptions) : Except CompileError (Array Level) := do
  let order := p.bindingOrder
  let above := Restriction.closure (Restriction.table order o.restrictions)
  let table := (Array.range order.length).map (Demands.ofLevel p order above)
  let demands := fun k => table.getD k Demands.none
  let inner ← (List.range' 1 (order.length - 1)).mapM fun k =>
    match exprOf? o.induced demands k with
    | some e => Except.ok (⟨e, none⟩ : Level)
    | none => .error (.unanchored (order.getD k 0))
  return (⟨.ofBase .all, none⟩ :: inner).toArray

def ofPattern (p : Pattern) (o : CompileOptions) : Except CompileError Plan := do
  if ¬p.isConnected then throw .disconnected
  checkRestrictions p.size o.restrictions
  let levels ← levelsFor p o
  (ofLevels (if o.useCache then Level.throughCaches levels else levels)).mapError .invalid

end Plan

end PatternCount
