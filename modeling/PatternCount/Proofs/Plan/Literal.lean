import Mathlib.Data.List.Forall2
import PatternCount.Proofs.Plan.Embeddings

/-!
# Caches taken at their word

In `Level.meaning` the row that a cache holds for a vertex stands for the whole row in the graph. What the cache
really holds is less: `Level.literal` reads it as the part of the row within the candidates of the level that the
cache is built over. Among levels that are valid the two come to the same (`Valid.literal_eq_meaning`), for
differences no less than for intersections. The running set lies within those candidates from the start, since they
are on the chain of the base, and operations only make it smaller (`foldl_literalOnSet`); so nothing that the cache
leaves out could have been in it.

A plan made with caches and one made without are therefore alike in all but the rows that they read and the caches
that they build (`CacheVariant`), and have the same candidates on every prefix.
-/

namespace PatternCount

section Literal

variable (g : HostGraph) (bound : Nat → Nat) (sets : Nat → Set Nat)

/-- The set that a reference stands for, where a cache holds of a row what lies in the candidates it is over. -/
def SetRef.literal : SetRef → Set Nat
  | .cached c p => {v | g.Edge (bound p) v ∧ v ∈ sets c}
  | r => r.meaning g bound sets

def SetOp.literalOnSet (op : SetOp) (running : Set Nat) : Set Nat :=
  match op with
  | .intersect r => running ∩ r.literal g bound sets
  | .subtract r => running \ r.literal g bound sets

namespace SetExpr

def boundedLiteral (e : SetExpr) : Set Nat :=
  {v | v ∈ e.base.literal g bound sets ∧ (∀ p ∈ e.upper, v < bound p) ∧ ∀ p ∈ e.lower, bound p < v}

def literal (e : SetExpr) : Set Nat :=
  {v | v ∈ e.ops.foldl (fun running op => op.literalOnSet g bound sets running) (e.boundedLiteral g bound sets)
    ∧ ∀ p ∈ e.exclude, v ≠ bound p}

end SetExpr

end Literal

/-- The candidates of level `k` on a prefix of bound vertices, if caches are taken at their word. -/
def Level.literal (levels : Array Level) (g : HostGraph) (bound : Nat → Nat) (k : Nat) : Set Nat :=
  match levels[k]? with
  | none => ∅
  | some level =>
      level.candidates.literal g bound fun l => {v | ∃ _ : l < k, v ∈ literal levels g bound l}
termination_by k

/-! ## One expression -/

section Expressions

variable {g : HostGraph} {bound : Nat → Nat} {sets : Nat → Set Nat}

theorem SetOp.onSet_subset (op : SetOp) (running : Set Nat) : op.onSet g bound sets running ⊆ running :=
  fun _ hv => (SetOp.mem_onSet.mp hv).1

/-- To a set within the candidates that a cache is over, the cached row does what the whole row does. -/
theorem SetOp.literalOnSet_eq {op : SetOp} {running : Set Nat}
    (h : ∀ c p, op.operand = .cached c p → running ⊆ sets c) :
    op.literalOnSet g bound sets running = op.onSet g bound sets running := by
  rcases op with r | r
  · cases r with
    | cached c p =>
        have hsub : running ⊆ sets c := h c p rfl
        ext v
        exact and_congr_right fun hv => and_iff_left (hsub hv)
    | _ => rfl
  · cases r with
    | cached c p =>
        have hsub : running ⊆ sets c := h c p rfl
        ext v
        exact and_congr_right fun hv => not_congr (and_iff_left (hsub hv))
    | _ => rfl

theorem SetOp.foldl_literalOnSet : ∀ {ops : List SetOp} {running : Set Nat},
    (∀ op ∈ ops, ∀ c p, op.operand = .cached c p → running ⊆ sets c) →
    ops.foldl (fun running op => op.literalOnSet g bound sets running) running
      = ops.foldl (fun running op => op.onSet g bound sets running) running
  | [], _, _ => rfl
  | op :: rest, running, h => by
      obtain ⟨hop, hrest⟩ := List.forall_mem_cons.mp h
      rw [List.foldl_cons, List.foldl_cons, literalOnSet_eq hop]
      exact foldl_literalOnSet fun op' hop' c p hcached => (op.onSet_subset running).trans (hrest op' hop' c p hcached)

theorem SetExpr.literal_eq {e : SetExpr} (hbase : e.base.literal g bound sets = e.base.meaning g bound sets)
    (hops : ∀ op ∈ e.ops, ∀ c p, op.operand = .cached c p → e.boundedMeaning g bound sets ⊆ sets c) :
    e.literal g bound sets = e.meaning g bound sets := by
  have hbounded : e.boundedLiteral g bound sets = e.boundedMeaning g bound sets := by
    rw [boundedLiteral, hbase, boundedMeaning]
  rw [literal, hbounded, SetOp.foldl_literalOnSet hops, meaning]

end Expressions

/-! ## All levels -/

namespace Level

variable {levels : Array Level} {g : HostGraph} {bound : Nat → Nat}

theorem literal_of_getElem? {k : Nat} {level : Level} (h : levels[k]? = some level) :
    literal levels g bound k
      = level.candidates.literal g bound fun l => {v | ∃ _ : l < k, v ∈ literal levels g bound l} := by
  rw [literal, h]

/-- The base of a level lies within the candidates of every level whose cache the level reads. -/
theorem Good.boundedMeaning_subset {k : Nat} {level : Level} (h : Good levels k level) {op : SetOp}
    (hop : op ∈ level.candidates.ops) {c p : Nat} (hcached : op.operand = .cached c p) :
    level.candidates.boundedMeaning g bound (earlier levels g bound k) ⊆ earlier levels g bound k c := by
  have href := h.refs op.operand (List.mem_cons_of_mem _ (List.mem_map_of_mem hop))
  rw [hcached] at href
  obtain ⟨hpk, ⟨-, hcp, -⟩, -, q, hq, hchain⟩ := href
  intro v hv
  have hbase := (SetExpr.mem_boundedMeaning.mp hv).1
  rw [hq] at hbase
  exact mem_earlier.mpr ⟨Nat.lt_of_le_of_lt hcp hpk, meaning_subset hchain (mem_earlier.mp hbase).2⟩

/-- In a valid list of levels it makes no difference that a cache holds only part of a row. -/
theorem Valid.literal_eq_meaning (h : Valid levels) {k : Nat} :
    literal levels g bound k = meaning levels g bound k := by
  induction k using Nat.strongRecOn with
  | ind k ih =>
      cases hlevel : levels[k]? with
      | none => rw [literal, meaning, hlevel]
      | some level =>
          have hsets : (fun l => {v | ∃ _ : l < k, v ∈ literal levels g bound l}) = earlier levels g bound k := by
            funext l
            ext v
            exact exists_congr fun hl => by rw [ih l hl]
          have hmeaning : meaning levels g bound k
              = level.candidates.meaning g bound (earlier levels g bound k) := by
            ext v
            exact mem_meaning hlevel
          rw [literal_of_getElem? hlevel, hsets, hmeaning]
          rcases Nat.eq_zero_or_pos k with rfl | hk
          · obtain rfl := Option.some.inj (hlevel.symm.trans h.root)
            rfl
          · have hgood := h.inner k level hk hlevel
            refine SetExpr.literal_eq ?_ fun op hop c p hcached => hgood.boundedMeaning_subset hop hcached
            rcases hgood.base with ⟨p, hp⟩ | ⟨q, hq⟩
            · rw [hp]
              rfl
            · rw [hq]
              rfl

end Level

/-! ## Plans with and without caches -/

/-- The second operation is the first, or reads the row of the same vertex from a cache. -/
inductive SetOp.CacheVariant : SetOp → SetOp → Prop where
  | same (op : SetOp) : CacheVariant op op
  | intersect (j c : Nat) : CacheVariant (.intersect (.adjacency j)) (.intersect (.cached c j))
  | subtract (j c : Nat) : CacheVariant (.subtract (.adjacency j)) (.subtract (.cached c j))

/-- The second level is the first but for rows that it reads from caches, and for a cache of its own. -/
structure Level.CacheVariant (plain cached : Level) : Prop where
  base : cached.candidates.base = plain.candidates.base
  upper : cached.candidates.upper = plain.candidates.upper
  lower : cached.candidates.lower = plain.candidates.lower
  exclude : cached.candidates.exclude = plain.candidates.exclude
  ops : List.Forall₂ SetOp.CacheVariant plain.candidates.ops cached.candidates.ops
  cache : plain.cache = none

theorem SetOp.cacheVariant_throughCache (levels : Array Level) (base : Nat) (op : SetOp) :
    CacheVariant op (Level.throughCache levels base op) := by
  rcases Level.throughCache_cases levels base op with h | ⟨j, c, hj, -, h⟩
  · rw [h]
    exact .same op
  · rw [h]
    cases op with
    | intersect r =>
        obtain rfl : r = .adjacency j := hj
        exact .intersect j c
    | subtract r =>
        obtain rfl : r = .adjacency j := hj
        exact .subtract j c

theorem Level.cacheVariant_ops_rerouted (levels : Array Level) (level : Level) :
    List.Forall₂ SetOp.CacheVariant level.candidates.ops (rerouted levels level).candidates.ops := by
  unfold rerouted
  split
  · rw [List.forall₂_map_right_iff]
    exact List.forall₂_same.mpr fun op _ => SetOp.cacheVariant_throughCache levels _ op
  · exact List.forall₂_same.mpr fun op _ => .same op

theorem Level.cacheVariant_throughCaches {levels : Array Level} {k : Nat} {plain cached : Level}
    (hplain : levels[k]? = some plain) (hcached : (throughCaches levels)[k]? = some cached)
    (hnone : plain.cache = none) : plain.CacheVariant cached := by
  obtain ⟨level, hlevel, hcandidates, -⟩ := of_getElem?_throughCaches hcached
  obtain rfl := Option.some.inj (hplain.symm.trans hlevel)
  have hsame := rerouted_eq levels plain
  rw [hsame] at hcandidates
  refine ⟨?_, ?_, ?_, ?_, ?_, hnone⟩
  · rw [hcandidates]
  · rw [hcandidates]
  · rw [hcandidates]
  · rw [hcandidates]
  · rw [hcandidates]
    exact cacheVariant_ops_rerouted levels plain

/-- Levels have no caches before adjacency is read from them. -/
theorem Compiled.cache_eq_none {induced : Bool} {demands : Nat → Demands} {levels : Array Level}
    (h : Compiled induced demands levels) {k : Nat} {level : Level} (hlevel : levels[k]? = some level) :
    level.cache = none := by
  rcases Nat.eq_zero_or_pos k with rfl | hk
  · obtain rfl := Option.some.inj (h.root.symm.trans hlevel)
    rfl
  · obtain ⟨hlt, -⟩ := Array.getElem?_eq_some_iff.mp hlevel
    obtain ⟨e, -, he⟩ := h.inner k hk hlt
    obtain rfl := Option.some.inj (he.symm.trans hlevel)
    rfl

namespace Plan

variable {p : Pattern} {o : CompileOptions}

/-- With and without caches a pattern is given the same levels, but for rows that are read from caches and the
caches that are built; and on every prefix of bound vertices a level has the same candidates in both, if a cache
holds of a row only what lies within the candidates of the level that it is built over. -/
theorem ofPattern_cacheVariant (hp : p.Connected)
    (ho : ∀ r ∈ o.restrictions, r.1 < p.size ∧ r.2 < p.size ∧ r.1 ≠ r.2) :
    ∃ plain cached : Plan, ofPattern p { o with useCache := false } = .ok plain ∧
      ofPattern p { o with useCache := true } = .ok cached ∧ cached.levels.size = plain.levels.size ∧
      (∀ (k : Nat) l l', plain.levels[k]? = some l → cached.levels[k]? = some l' → l.CacheVariant l') ∧
      ∀ (g : HostGraph) (bound : Nat → Nat) (k : Nat),
        Level.literal cached.levels g bound k = Level.literal plain.levels g bound k := by
  have hconnected := Pattern.isConnected_of_connected hp
  obtain ⟨plain, levels, hplain, hlevels, -, hcompiled, hplainLevels⟩ :=
    levels_ofPattern (o := { o with useCache := false }) hconnected ho
  obtain ⟨cached, levels', hcached, hlevels', -, -, hcachedLevels⟩ :=
    levels_ofPattern (o := { o with useCache := true }) hconnected ho
  -- The levels are made before caches are thought of.
  obtain rfl := Except.ok.inj (hlevels.symm.trans hlevels')
  change plain.levels = levels at hplainLevels
  change cached.levels = Level.throughCaches levels at hcachedLevels
  refine ⟨plain, cached, hplain, hcached, ?_, ?_, ?_⟩
  · rw [hcachedLevels, hplainLevels, Level.size_throughCaches]
  · intro k l l' hl hl'
    rw [hplainLevels] at hl
    rw [hcachedLevels] at hl'
    exact Level.cacheVariant_throughCaches hl hl' (hcompiled.cache_eq_none hl)
  · intro g bound k
    rw [cached.isValid.literal_eq_meaning, plain.isValid.literal_eq_meaning, hcachedLevels, hplainLevels,
      Level.meaning_throughCaches]

/-- In the plan for induced cycles of four positions the last level takes away a row that it reads from a cache. -/
theorem ofPattern_cacheVariant_cycle :
    ∃ p : Pattern, Pattern.cycle 4 = .ok p ∧
      ∃ plain cached : Plan, ofPattern p ⟨true, [], false⟩ = .ok plain ∧ ofPattern p ⟨true, [], true⟩ = .ok cached ∧
        cached.levels[3]?.map (fun level => level.candidates.ops)
          = some [.intersect (.adjacency 2), .subtract (.cached 1 1)] ∧
        ∀ (g : HostGraph) (bound : Nat → Nat) (k : Nat),
          Level.literal cached.levels g bound k = Level.literal plain.levels g bound k := by
  let p : Pattern := ((((Pattern.edgeless 4 (by decide) (by decide)).link 0 1 (by decide) (by decide)
    (by decide)).link 1 2 (by decide) (by decide) (by decide)).link 2 3 (by decide) (by decide) (by decide)).link 3 0
    (by decide) (by decide) (by decide)
  have hp : p.Connected := Pattern.connected_of_isConnected (by decide)
  obtain ⟨plain, cached, hplain, hcached, -, -, hliteral⟩ :=
    ofPattern_cacheVariant (o := ⟨true, [], false⟩) hp (fun _ h => absurd h List.not_mem_nil)
  have hops : (ofPattern p ⟨true, [], true⟩).toOption.map
      (fun plan => plan.levels[3]?.map fun level => level.candidates.ops)
        = some (some [.intersect (.adjacency 2), .subtract (.cached 1 1)]) := by decide +kernel
  rw [hcached] at hops
  exact ⟨p, rfl, plain, cached, hplain, hcached, Option.some.inj hops, hliteral⟩

end Plan

end PatternCount
