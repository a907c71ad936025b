import PatternCount.Proofs.Plan.Chains
import PatternCount.Proofs.Plan.Embeddings

/-!
# The bounds of a level

A level lists bounds of its own, and if it starts from the candidates of an earlier level it is under the bounds of
that level as well. `Level.listedAlong` collects what the levels on its base chain list. Among levels whose operations
read rows only, these are all bounds there are (`mem_meaning_unbounded`): the candidates of a level are those that it
would have if no level listed a bound, as far as they keep to the bounds along its chain.

A level for a pattern leaves out the bounds that its base is under. As it shares all of them, the bounds along its
chain are those that it has been asked for (`Compiled.mem_listedAlong`), which are the closure's. So a plan for a
pattern puts each level under the bounds that chains of restrictions force against earlier levels, and under no others
(`Plan.bounds_iff_forced`).
-/

namespace PatternCount

/-! ## Bounds along a chain -/

namespace Level

/-- What the levels on the base chain of level `k` list, where `list` is read off the expression of each. -/
def listedAlong (levels : Array Level) (list : SetExpr → List Nat) (k : Nat) : List Nat :=
  (baseChain levels k).flatMap fun c => (levels[c]?.map fun level => list level.candidates).getD []

/-- The level with the bounds left out that it lists itself. -/
def unbounded (level : Level) : Level :=
  { level with candidates := { level.candidates with upper := [], lower := [] } }

/-- No operation reads the candidates of a level. -/
def ReadsRows (levels : Array Level) : Prop :=
  ∀ (k : Nat) level, levels[k]? = some level → ∀ op ∈ level.candidates.ops, ∀ l, op.operand ≠ .candidates l

variable {levels : Array Level} {list : SetExpr → List Nat} {k q : Nat} {level : Level}

theorem listedAlong_of_base (hlevel : levels[k]? = some level) (hbase : level.candidates.base = .candidates q)
    (hq : q < k) : listedAlong levels list k = list level.candidates ++ listedAlong levels list q := by
  have hchain : baseChain levels k = k :: baseChain levels q := by
    obtain ⟨⟨base, _, _, _, _⟩, _⟩ := level
    obtain rfl : base = .candidates q := hbase
    rw [baseChain, baseLevel?, hlevel]
    exact if_pos hq
  rw [listedAlong, hchain, List.flatMap_cons, hlevel]
  rfl

theorem listedAlong_of_no_base (hlevel : levels[k]? = some level)
    (hbase : ∀ q, level.candidates.base = .candidates q → ¬q < k) :
    listedAlong levels list k = list level.candidates := by
  have hchain : baseChain levels k = [k] := by
    rw [baseChain]
    split
    · next q hq =>
        unfold baseLevel? at hq
        split at hq
        · next hlevel' =>
            obtain rfl := Option.some.inj (hlevel.symm.trans hlevel')
            exact if_neg (hbase q (congrArg _ (Option.some.inj hq)))
        · cases hq
    · rfl
  rw [listedAlong, hchain, List.flatMap_singleton, hlevel]
  rfl

section Meaning

variable {g : HostGraph} {bound : Nat → Nat} {v : Nat}

/-- An operation that reads a row does the same whatever the candidates of the levels are. -/
theorem keeps_congr {op : SetOp} (hop : ∀ l, op.operand ≠ .candidates l) {sets sets' : Nat → Set Nat} :
    op.Keeps g bound sets v ↔ op.Keeps g bound sets' v := by
  have hsame : op.operand.meaning g bound sets = op.operand.meaning g bound sets' := by
    cases hoperand : op.operand with
    | candidates l => exact (hop l hoperand).elim
    | _ => rfl
  cases op with
  | intersect r => exact Set.ext_iff.mp hsame v
  | subtract r => exact not_congr (Set.ext_iff.mp hsame v)

/-- A base that is not the candidates of an earlier level is the same set for all lists of levels. -/
theorem base_congr (levels' : Array Level) {base : SetRef} (hbase : ∀ q, base = .candidates q → ¬q < k) :
    v ∈ base.meaning g bound (earlier levels g bound k) ↔ v ∈ base.meaning g bound (earlier levels' g bound k) := by
  cases base with
  | candidates q =>
      have hq := hbase q rfl
      exact iff_of_false (fun hv => hq (mem_earlier.mp hv).1) fun hv => hq (mem_earlier.mp hv).1
  | _ => exact Iff.rfl

/-- The candidates of a level are those that it would have if no level listed a bound, as far as they keep to the
bounds along its base chain. -/
theorem mem_meaning_unbounded (hrows : ReadsRows levels) :
    v ∈ meaning levels g bound k ↔ v ∈ meaning (levels.map unbounded) g bound k ∧
      (∀ j ∈ listedAlong levels SetExpr.upper k, v < bound j) ∧
      ∀ j ∈ listedAlong levels SetExpr.lower k, bound j < v := by
  induction k using Nat.strongRecOn with
  | ind k ih =>
      cases hlevel : levels[k]? with
      | none =>
          have hk := Array.getElem?_eq_none_iff.mp hlevel
          exact iff_of_false (not_mem_meaning hk) fun hv => not_mem_meaning (Array.size_map.symm ▸ hk) hv.1
      | some level =>
          have hfree : (levels.map unbounded)[k]? = some level.unbounded := by
            rw [Array.getElem?_map, hlevel, Option.map_some]
          have hops : (∀ op ∈ level.candidates.ops, op.Keeps g bound (earlier levels g bound k) v) ↔
              ∀ op ∈ level.candidates.ops, op.Keeps g bound (earlier (levels.map unbounded) g bound k) v :=
            forall₂_congr fun op hop => keeps_congr (hrows k level hlevel op hop)
          rw [mem_meaning hlevel, mem_meaning hfree, SetExpr.mem_meaning, SetExpr.mem_meaning,
            SetExpr.mem_boundedMeaning, SetExpr.mem_boundedMeaning, hops]
          simp only [unbounded, List.not_mem_nil, false_implies, implies_true, and_true]
          -- Only a base that is the candidates of an earlier level brings bounds of its own.
          by_cases hbase : ∃ q, level.candidates.base = .candidates q ∧ q < k
          · obtain ⟨q, hq, hlt⟩ := hbase
            have hearlier : v ∈ SetRef.meaning g bound (earlier levels g bound k) (.candidates q) ↔ _ :=
              (mem_earlier.trans (and_iff_right hlt)).trans (ih q hlt)
            have hearlier' : v ∈ SetRef.meaning g bound (earlier (levels.map unbounded) g bound k) (.candidates q) ↔
                v ∈ meaning (levels.map unbounded) g bound q := mem_earlier.trans (and_iff_right hlt)
            rw [hq, hearlier, hearlier', listedAlong_of_base hlevel hq hlt, listedAlong_of_base hlevel hq hlt,
              List.forall_mem_append, List.forall_mem_append]
            tauto
          · have hnone : ∀ q, level.candidates.base = .candidates q → ¬q < k := fun q hq hlt => hbase ⟨q, hq, hlt⟩
            rw [base_congr (levels.map unbounded) hnone, listedAlong_of_no_base hlevel hnone,
              listedAlong_of_no_base hlevel hnone]
            tauto

end Meaning

end Level

/-! ## Levels for patterns -/

/-- The list that an expression has of what its level has been asked for. -/
structure Bounding (list : SetExpr → List Nat) (asked : Demands → PositionSet) : Prop where
  ofBase : ∀ base, list (.ofBase base) = []
  withOps : ∀ e ops, list { e with ops } = list e
  exprFrom : ∀ induced (demands : Nat → Demands) k base met leftOut,
    list (exprFrom induced demands k base met leftOut) = ((asked (demands k)).diff (asked met)).toList
  row : ∀ neighbors, asked ⟨neighbors, .empty, .empty⟩ = .empty
  shared : ∀ {induced d e p}, Demands.sharedBy induced d e p = true → ∀ j ∈ asked e, j ∈ asked d
  before : ∀ {d k}, Demands.Before d k → ∀ j ∈ asked d, j < k

theorem bounding_upper : Bounding SetExpr.upper Demands.uppers where
  ofBase := fun _ => rfl
  withOps := fun _ _ => rfl
  exprFrom := fun _ _ _ _ _ _ => rfl
  row := fun _ => rfl
  shared := fun h => (Demands.sharedBy_iff.mp h).1.1.2
  before := fun h => h.uppers

theorem bounding_lower : Bounding SetExpr.lower Demands.lowers where
  ofBase := fun _ => rfl
  withOps := fun _ _ => rfl
  exprFrom := fun _ _ _ _ _ _ => rfl
  row := fun _ => rfl
  shared := fun h => (Demands.sharedBy_iff.mp h).1.2
  before := fun h => h.lowers

section Compiled

variable {induced : Bool} {demands : Nat → Demands} {levels : Array Level} {list : SetExpr → List Nat}
  {asked : Demands → PositionSet}

/-- What a level leaves out its base lists, or a level before that, so that nothing it has been asked for is missing
along its chain, and nothing is added. -/
theorem Compiled.mem_listedAlong (h : Compiled induced demands levels) (hlist : Bounding list asked) {k : Nat}
    (hk : k < levels.size) {j : Nat} : j ∈ Level.listedAlong levels list k ↔ j ∈ asked (demands k) := by
  induction k using Nat.strongRecOn with
  | ind k ih =>
      rcases Nat.eq_zero_or_pos k with rfl | hpos
      · rw [Level.listedAlong_of_no_base h.root nofun, hlist.ofBase]
        exact iff_of_false List.not_mem_nil fun hj => absurd (hlist.before (h.before 0) j hj) (Nat.not_lt_zero j)
      · obtain ⟨e, he, hlevel⟩ := h.inner k hpos hk
        rcases exprOf?_eq_some he with ⟨p, hp, rfl⟩ | ⟨first, hfirst, rfl⟩
        · obtain ⟨⟨-, hpk⟩, hshared⟩ := usableBase?_eq_some hp
          rw [Level.listedAlong_of_base hlevel rfl hpk, List.mem_append, hlist.exprFrom, PositionSet.mem_toList,
            PositionSet.mem_diff, ih p hpk (Nat.lt_trans hpk hk)]
          constructor
          · exact fun hj => hj.elim And.left (hlist.shared hshared j)
          · intro hj
            by_cases hjp : j ∈ asked (demands p)
            · exact Or.inr hjp
            · exact Or.inl ⟨hj, hjp⟩
        · rw [Level.listedAlong_of_no_base hlevel nofun, hlist.exprFrom, PositionSet.mem_toList,
            PositionSet.mem_diff, hlist.row]
          exact and_iff_left (PositionSet.not_mem_empty j)

theorem Compiled.readsRows (h : Compiled induced demands levels) : Level.ReadsRows levels := by
  intro k level hlevel op hop l hl
  rcases Nat.eq_zero_or_pos k with rfl | hpos
  · obtain rfl := Option.some.inj (h.root.symm.trans hlevel)
    cases hop
  · obtain ⟨hlt, -⟩ := Array.getElem?_eq_some_iff.mp hlevel
    obtain ⟨e, he, hlevel'⟩ := h.inner k hpos hlt
    obtain rfl := Option.some.inj (hlevel.symm.trans hlevel')
    rcases exprOf?_eq_some he with ⟨p, -, rfl⟩ | ⟨first, -, rfl⟩
    all_goals
      rcases mem_remainingOps.mp hop with ⟨j, -, rfl⟩ | ⟨-, j, -, rfl⟩
      · cases hl
      · cases hl

/-- Reading rows from caches changes no bound. -/
theorem Bounding.listedAlong_throughCaches (hlist : Bounding list asked) (levels : Array Level) (k : Nat) :
    Level.listedAlong (Level.throughCaches levels) list k = Level.listedAlong levels list k := by
  rw [Level.listedAlong, Level.baseChain_throughCaches, Level.listedAlong]
  congr 1
  funext c
  cases hlevel : (Level.throughCaches levels)[c]? with
  | none =>
      have hc := Array.getElem?_eq_none_iff.mp hlevel
      rw [Array.getElem?_eq_none (Level.size_throughCaches levels ▸ hc)]
  | some level' =>
      obtain ⟨level, hold, hcandidates, -⟩ := Level.of_getElem?_throughCaches hlevel
      rw [hold, Option.map_some, Option.map_some, hcandidates, Level.rerouted_eq, hlist.withOps]

theorem Level.ReadsRows.throughCaches (h : ReadsRows levels) : ReadsRows (throughCaches levels) := by
  intro k level' hlevel' op hop l hl
  obtain ⟨level, hlevel, hcandidates, -⟩ := of_getElem?_throughCaches hlevel'
  rw [hcandidates] at hop
  rcases mem_ops_rerouted hop with hop | ⟨q, op', -, hop', rfl⟩
  · exact h k level hlevel op hop l hl
  · rcases throughCache_cases levels q op' with heq | ⟨j, c, -, -, heq⟩
    · exact h k level hlevel op' hop' l (heq ▸ hl)
    · rw [heq, operand_withOperand] at hl
      cases hl

end Compiled

/-! ## Plans for patterns -/

namespace Plan

open Restriction

variable {p : Pattern} {o : CompileOptions}

/-- The lists of bounds along the chains of a plan for a pattern are what its levels have been asked for. -/
theorem listedAlong_ofPattern (hp : p.Connected)
    (ho : ∀ r ∈ o.restrictions, r.1 < p.size ∧ r.2 < p.size ∧ r.1 ≠ r.2) :
    ∃ plan, ofPattern p o = .ok plan ∧ plan.levels.size = p.size ∧ Level.ReadsRows plan.levels ∧
      ∀ {list asked}, Bounding list asked → ∀ {k}, k < p.size → ∀ {j},
        j ∈ Level.listedAlong plan.levels list k ↔ j ∈ asked (demandsFor p o k) := by
  obtain ⟨plan, levels, hplan, -, hsize, hcompiled, hlevels⟩ :=
    levels_ofPattern (Pattern.isConnected_of_connected hp) ho
  refine ⟨plan, hplan, ?_⟩
  rw [hlevels]
  cases o.useCache with
  | true =>
      refine ⟨(Level.size_throughCaches levels).trans hsize, hcompiled.readsRows.throughCaches, ?_⟩
      intro list asked hlist k hk j
      rw [if_pos rfl, hlist.listedAlong_throughCaches]
      exact hcompiled.mem_listedAlong hlist (hsize.symm ▸ hk)
  | false =>
      refine ⟨hsize, hcompiled.readsRows, ?_⟩
      intro list asked hlist k hk j
      exact hcompiled.mem_listedAlong hlist (hsize.symm ▸ hk)

/-- In whatever order positions are bound, the closure of the table of restrictions has a level above another just if
a chain of restrictions forces the vertex of the one below that of the other, and it makes no difference that its rows
are changed in place. A plan for a pattern with these restrictions lists, along the base chain of each level, the
earlier levels that are forced above it or below it; and the candidates of the level are those that it would have
without any bounds, as far as they keep to these. -/
theorem bounds_iff_forced {n : Nat} {restrictions : List (Nat × Nat)}
    (hr : ∀ r ∈ restrictions, r.1 < n ∧ r.2 < n ∧ r.1 ≠ r.2) :
    (∀ order : List Nat, order.Perm (List.range n) →
      closureInPlace (table order restrictions) = closure (table order restrictions) ∧
      ∀ k i, i ∈ (closure (table order restrictions)).getD k .empty ↔ Forced order restrictions k i) ∧
    ∀ (p : Pattern) (o : CompileOptions), p.size = n → o.restrictions = restrictions → p.Connected →
      ∃ plan, ofPattern p o = .ok plan ∧ plan.levels.size = n ∧ ∀ k < n,
        (∀ j, j ∈ Level.listedAlong plan.levels SetExpr.upper k ↔
          j < k ∧ Forced p.bindingOrder restrictions k j) ∧
        (∀ j, j ∈ Level.listedAlong plan.levels SetExpr.lower k ↔
          j < k ∧ Forced p.bindingOrder restrictions j k) ∧
        ∀ (g : HostGraph) (bound : Nat → Nat) (v : Nat), v ∈ Level.meaning plan.levels g bound k ↔
          v ∈ Level.meaning (plan.levels.map Level.unbounded) g bound k ∧
            (∀ j < k, Forced p.bindingOrder restrictions k j → v < bound j) ∧
            ∀ j < k, Forced p.bindingOrder restrictions j k → bound j < v := by
  refine ⟨fun order horder => ⟨closureInPlace_eq _, fun k i => mem_closure_table_iff horder hr⟩, ?_⟩
  rintro p o rfl rfl hp
  obtain ⟨plan, hplan, hsize, hrows, hlisted⟩ := listedAlong_ofPattern hp hr
  have hforced : ∀ {k i}, Above (aboveFor p o) k i ↔ Forced p.bindingOrder o.restrictions k i :=
    mem_closure_table_iff p.bindingOrder_perm hr
  refine ⟨plan, hplan, hsize, fun k hk => ?_⟩
  have hupper : ∀ j, j ∈ Level.listedAlong plan.levels SetExpr.upper k ↔
      j < k ∧ Forced p.bindingOrder o.restrictions k j := fun j => by
    rw [hlisted bounding_upper hk, mem_uppers hk, hforced]
  have hlower : ∀ j, j ∈ Level.listedAlong plan.levels SetExpr.lower k ↔
      j < k ∧ Forced p.bindingOrder o.restrictions j k := fun j => by
    rw [hlisted bounding_lower hk, mem_lowers hk, hforced]
  refine ⟨hupper, hlower, fun g bound v => ?_⟩
  rw [Level.mem_meaning_unbounded hrows]
  simp only [hupper, hlower, and_imp]

/-- Three restrictions that contradict each other force every position of a triangle below itself. The last level of its
plan lists the second position and is under the bound of the first by its base. -/
theorem bounds_iff_forced_triangle :
    (∀ r ∈ [(0, 1), (1, 2), (2, 0)], r.1 < 3 ∧ r.2 < 3 ∧ r.1 ≠ r.2) ∧ [2, 0, 1].Perm (List.range 3) ∧
      Forced [2, 0, 1] [(0, 1), (1, 2), (2, 0)] 0 0 ∧
      ∃ p : Pattern, Pattern.clique 3 = .ok p ∧ p.Connected ∧
        ∃ plan : Plan, ofPattern p ⟨false, [(0, 1), (1, 2), (2, 0)], true⟩ = .ok plan ∧
          plan.levels[2]?.map (fun level => level.candidates.upper) = some [1] ∧
          ∀ j, j ∈ Level.listedAlong plan.levels SetExpr.upper 2 ↔
            j < 2 ∧ Forced p.bindingOrder [(0, 1), (1, 2), (2, 0)] 2 j := by
  let p : Pattern := (((Pattern.edgeless 3 (by decide) (by decide)).link 0 1 (by decide) (by decide)
    (by decide)).link 0 2 (by decide) (by decide) (by decide)).link 1 2 (by decide) (by decide) (by decide)
  have hr : ∀ r ∈ [(0, 1), (1, 2), (2, 0)], r.1 < 3 ∧ r.2 < 3 ∧ r.1 ≠ r.2 := by decide
  have horder : [2, 0, 1].Perm (List.range 3) := by decide
  have hp : p.Connected := Pattern.connected_of_isConnected (by decide)
  obtain ⟨hclosure, hplans⟩ := bounds_iff_forced hr
  have hforced : Forced [2, 0, 1] [(0, 1), (1, 2), (2, 0)] 0 0 :=
    ((hclosure [2, 0, 1] horder).2 0 0).mp (by decide +kernel)
  obtain ⟨plan, hplan, -, hbounds⟩ := hplans p ⟨false, [(0, 1), (1, 2), (2, 0)], true⟩ rfl rfl hp
  have hupper : (ofPattern p ⟨false, [(0, 1), (1, 2), (2, 0)], true⟩).toOption.map
      (fun plan => plan.levels[2]?.map fun level => level.candidates.upper) = some (some [1]) := by decide +kernel
  rw [hplan] at hupper
  exact ⟨hr, horder, hforced, p, rfl, hp, plan, hplan, Option.some.inj hupper, (hbounds 2 (by decide)).1⟩

end Plan

end PatternCount
