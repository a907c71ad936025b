import PatternCount.Proofs.Plan.BindingOrder
import PatternCount.Proofs.Plan.Meaning
import PatternCount.Proofs.Plan.Restrictions

/-!
# The levels made for a pattern

A level asks for vertices that meet its `Demands`: adjacent to the vertices of some earlier levels, different from
those of the others, and between bounds. How the expression of a level comes to them is another matter. Where it
starts from the candidates of an earlier level, it leaves out what that level asks already.

- **meaning** (`Compiled.mem_meaning`): in a graph without loops, the candidates of a level are exactly the
  vertices that meet its demands. What a base leaves out of its own accord is either left out by the level too, or
  is a neighbour's vertex, which no vertex adjacent to it is.
- **validity** (`Compiled.valid`): the levels make a plan.
- **existence** (`levelsFor_eq_ok`): for a connected pattern there are levels, as every position but the first has
  a neighbour that is bound before it.
-/

namespace PatternCount

/-! ## Demands -/

namespace Demands

/-- The vertex `v` is what level `k` asks for, where `bound j` is the vertex bound at level `j`. -/
structure Meets (d : Demands) (induced : Bool) (g : HostGraph) (bound : Nat → Nat) (k v : Nat) : Prop where
  neighbors : ∀ j ∈ d.neighbors, g.Edge (bound j) v
  uppers : ∀ j ∈ d.uppers, v < bound j
  lowers : ∀ j ∈ d.lowers, bound j < v
  others : ∀ j < k, j ∉ d.neighbors → v ≠ bound j ∧ (induced = true → ¬g.Edge (bound j) v)

/-- A level asks something of earlier levels only. -/
structure Before (d : Demands) (k : Nat) : Prop where
  neighbors : ∀ j ∈ d.neighbors, j < k
  uppers : ∀ j ∈ d.uppers, j < k
  lowers : ∀ j ∈ d.lowers, j < k

theorem sharedBy_iff {induced : Bool} {d e : Demands} {p : Nat} :
    d.sharedBy induced e p = true ↔
      (((∀ j ∈ e.neighbors, j ∈ d.neighbors) ∧ ∀ j ∈ e.uppers, j ∈ d.uppers) ∧ ∀ j ∈ e.lowers, j ∈ d.lowers)
        ∧ (induced = true → d.neighbors.inter (.below p) = e.neighbors) := by
  cases induced <;> simp [sharedBy, PositionSet.isSubset_iff]

end Demands

/-! ## Expressions -/

section Expressions

variable {induced : Bool} {demands : Nat → Demands} {k : Nat}

theorem mem_remainingOps {joined parted : List Nat} {op : SetOp} :
    op ∈ remainingOps induced joined parted ↔
      (∃ j ∈ joined, op = .intersect (.adjacency j)) ∨
        (induced = true ∧ ∃ j ∈ parted, op = .subtract (.adjacency j)) := by
  cases induced <;> simp [remainingOps, eq_comm]

theorem usableBase?_eq_some {p : Nat} (h : usableBase? induced demands k = some p) :
    (1 ≤ p ∧ p < k) ∧ (demands k).sharedBy induced (demands p) p = true := by
  have hp := List.mem_of_find?_eq_some h
  rw [List.mem_reverse, List.mem_range'_1] at hp
  refine ⟨by omega, ?_⟩
  have hshared := List.find?_some (p := fun q => (demands k).sharedBy induced (demands q) q) h
  exact hshared

theorem mem_meaning_exprFrom {base : SetRef} {met : Demands} {leftOut : PositionSet} {g : HostGraph}
    {bound : Nat → Nat} {sets : Nat → Set Nat} {v : Nat} :
    v ∈ (exprFrom induced demands k base met leftOut).meaning g bound sets ↔
      v ∈ base.meaning g bound sets
        ∧ (∀ j ∈ (demands k).neighbors, j ∉ met.neighbors → g.Edge (bound j) v)
        ∧ (∀ j ∈ (demands k).uppers, j ∉ met.uppers → v < bound j)
        ∧ (∀ j ∈ (demands k).lowers, j ∉ met.lowers → bound j < v)
        ∧ ∀ j < k, j ∉ (demands k).neighbors → j ∉ leftOut →
            v ≠ bound j ∧ (induced = true → ¬g.Edge (bound j) v) := by
  rw [SetExpr.mem_meaning, SetExpr.mem_boundedMeaning]
  simp only [exprFrom, PositionSet.mem_toList, PositionSet.mem_diff, PositionSet.mem_below, mem_remainingOps]
  constructor
  · rintro ⟨⟨hbase, huppers, hlowers⟩, hops, hexclude⟩
    refine ⟨hbase, fun j hj hmet => hops _ (Or.inl ⟨j, ⟨hj, hmet⟩, rfl⟩), fun j hj hmet => huppers j ⟨hj, hmet⟩,
      fun j hj hmet => hlowers j ⟨hj, hmet⟩, fun j hjk hj hleft => ⟨hexclude j ⟨⟨hjk, hj⟩, hleft⟩, ?_⟩⟩
    exact fun hinduced => hops _ (Or.inr ⟨hinduced, j, ⟨⟨hjk, hj⟩, hleft⟩, rfl⟩)
  · rintro ⟨hbase, hneighbors, huppers, hlowers, hothers⟩
    refine ⟨⟨hbase, fun j hj => huppers j hj.1 hj.2, fun j hj => hlowers j hj.1 hj.2⟩, ?_,
      fun j hj => (hothers j hj.1.1 hj.1.2 hj.2).1⟩
    rintro op (⟨j, hj, rfl⟩ | ⟨hinduced, j, hj, rfl⟩)
    · exact hneighbors j hj.1 hj.2
    · exact (hothers j hj.1.1 hj.1.2 hj.2).2 hinduced

variable {g : HostGraph} {bound : Nat → Nat} {sets : Nat → Set Nat} {v : Nat}

/-- An expression that starts from the candidates of a level whose demands are shared comes to the demands. What
that level has left out of its own accord is left out here too, or is the vertex of a neighbour. -/
theorem mem_meaning_shared (hg : ∀ u, ¬g.Edge u u) {p : Nat} (hpk : p < k)
    (hshared : (demands k).sharedBy induced (demands p) p = true)
    (hbase : v ∈ SetRef.meaning g bound sets (.candidates p) ↔ (demands p).Meets induced g bound p v) :
    v ∈ (exprFrom induced demands k (.candidates p) (demands p)
        ((PositionSet.below p).diff (demands p).neighbors)).meaning g bound sets ↔
      (demands k).Meets induced g bound k v := by
  obtain ⟨⟨⟨hneighbors, huppers⟩, hlowers⟩, hsame⟩ := Demands.sharedBy_iff.mp hshared
  rw [mem_meaning_exprFrom, hbase]
  constructor
  · rintro ⟨hmeets, hn, hu, hl, ho⟩
    refine ⟨?_, ?_, ?_, ?_⟩
    · intro j hj
      by_cases hjp : j ∈ (demands p).neighbors
      · exact hmeets.neighbors j hjp
      · exact hn j hj hjp
    · intro j hj
      by_cases hjp : j ∈ (demands p).uppers
      · exact hmeets.uppers j hjp
      · exact hu j hj hjp
    · intro j hj
      by_cases hjp : j ∈ (demands p).lowers
      · exact hmeets.lowers j hjp
      · exact hl j hj hjp
    · intro j hjk hj
      by_cases hjp : j < p ∧ j ∉ (demands p).neighbors
      · exact hmeets.others j hjp.1 hjp.2
      · exact ho j hjk hj (by simpa using hjp)
  · intro hmeets
    have hothers : ∀ j < p, j ∉ (demands p).neighbors →
        v ≠ bound j ∧ (induced = true → ¬g.Edge (bound j) v) := by
      intro j hjp hj
      by_cases hjk : j ∈ (demands k).neighbors
      · have hedge := hmeets.neighbors j hjk
        refine ⟨fun heq => hg v (heq ▸ hedge), ?_⟩
        intro hinduced
        rw [← hsame hinduced, PositionSet.mem_inter, PositionSet.mem_below] at hj
        exact (hj ⟨hjk, hjp⟩).elim
      · exact hmeets.others j (Nat.lt_trans hjp hpk) hjk
    exact ⟨⟨fun j hj => hmeets.neighbors j (hneighbors j hj), fun j hj => hmeets.uppers j (huppers j hj),
      fun j hj => hmeets.lowers j (hlowers j hj), hothers⟩,
      fun j hj _ => hmeets.neighbors j hj, fun j hj _ => hmeets.uppers j hj,
      fun j hj _ => hmeets.lowers j hj, fun j hjk hj _ => hmeets.others j hjk hj⟩

/-- An expression that starts from the row of a neighbour comes to the demands. -/
theorem mem_meaning_row {first : Nat} (hfirst : first ∈ (demands k).neighbors) :
    v ∈ (exprFrom induced demands k (.adjacency first) ⟨.ofList [first], .empty, .empty⟩ .empty).meaning
        g bound sets ↔
      (demands k).Meets induced g bound k v := by
  rw [mem_meaning_exprFrom]
  constructor
  · rintro ⟨hbase, hn, hu, hl, ho⟩
    refine ⟨?_, fun j hj => hu j hj (PositionSet.not_mem_empty j),
      fun j hj => hl j hj (PositionSet.not_mem_empty j),
      fun j hjk hj => ho j hjk hj (PositionSet.not_mem_empty j)⟩
    intro j hj
    by_cases hjf : j = first
    · rw [hjf]
      exact hbase
    · exact hn j hj (by simpa using hjf)
  · intro hmeets
    exact ⟨hmeets.neighbors first hfirst, fun j hj _ => hmeets.neighbors j hj,
      fun j hj _ => hmeets.uppers j hj, fun j hj _ => hmeets.lowers j hj,
      fun j hjk hj _ => hmeets.others j hjk hj⟩

/-- Whether a level starts from an earlier one, or from the row of one of its neighbours. -/
theorem exprOf?_eq_some {e : SetExpr} (h : exprOf? induced demands k = some e) :
    (∃ p, usableBase? induced demands k = some p ∧
        e = exprFrom induced demands k (.candidates p) (demands p)
          ((PositionSet.below p).diff (demands p).neighbors)) ∨
      ∃ first ∈ (demands k).neighbors,
        e = exprFrom induced demands k (.adjacency first) ⟨.ofList [first], .empty, .empty⟩ .empty := by
  unfold exprOf? at h
  cases hbase : usableBase? induced demands k with
  | some p =>
      rw [hbase] at h
      exact Or.inl ⟨p, rfl, (Option.some.inj h).symm⟩
  | none =>
      rw [hbase] at h
      obtain ⟨first, hfirst, hexpr⟩ := Option.bind_eq_some_iff.mp h
      exact Or.inr ⟨first, PositionSet.mem_of_first? hfirst, (Option.some.inj hexpr).symm⟩

end Expressions

/-! ## Levels -/

/-- The levels are those made for the demands. -/
structure Compiled (induced : Bool) (demands : Nat → Demands) (levels : Array Level) : Prop where
  root : levels[0]? = some ⟨.ofBase .all, none⟩
  inner : ∀ k, 1 ≤ k → k < levels.size → ∃ e, exprOf? induced demands k = some e ∧ levels[k]? = some ⟨e, none⟩
  before : ∀ k, (demands k).Before k

namespace Compiled

variable {induced : Bool} {demands : Nat → Demands} {levels : Array Level}

/-- The candidates of a level are the vertices that meet its demands. -/
theorem mem_meaning (h : Compiled induced demands levels) {g : HostGraph} (hg : ∀ u, ¬g.Edge u u)
    {bound : Nat → Nat} {k : Nat} (hk : 1 ≤ k) (hlt : k < levels.size) {v : Nat} :
    v ∈ Level.meaning levels g bound k ↔ (demands k).Meets induced g bound k v := by
  induction k using Nat.strongRecOn with
  | ind k ih =>
      obtain ⟨e, he, hlevel⟩ := h.inner k hk hlt
      rw [Level.mem_meaning hlevel]
      rcases exprOf?_eq_some he with ⟨p, hp, rfl⟩ | ⟨first, hfirst, rfl⟩
      · obtain ⟨⟨hone, hpk⟩, hshared⟩ := usableBase?_eq_some hp
        refine mem_meaning_shared hg hpk hshared ?_
        exact (Level.mem_earlier.trans (and_iff_right hpk)).trans (ih p hpk hone (Nat.lt_trans hpk hlt))
      · exact mem_meaning_row hfirst

/-- An expression from a known base that adds to it what the level asks refers to earlier levels only. -/
theorem good_exprFrom (h : Compiled induced demands levels) {k : Nat} {base : SetRef} {met : Demands}
    {leftOut : PositionSet} (hbase : Level.GoodRef levels k base base)
    (hkind : (∃ p, base = .adjacency p) ∨ ∃ q, base = .candidates q) :
    Level.Good levels k ⟨exprFrom induced demands k base met leftOut, none⟩ := by
  have hbefore := h.before k
  refine ⟨hkind, List.forall_mem_cons.mpr ⟨hbase, ?_⟩, ?_, nofun⟩
  · intro r hr
    obtain ⟨op, hop, rfl⟩ := List.mem_map.mp hr
    rcases mem_remainingOps.mp hop with ⟨j, hj, rfl⟩ | ⟨-, j, hj, rfl⟩
    · exact hbefore.neighbors j (PositionSet.mem_diff.mp (PositionSet.mem_toList.mp hj)).1
    · simp only [PositionSet.mem_toList, PositionSet.mem_diff, PositionSet.mem_below] at hj
      exact hj.1.1
  · intro p hp
    simp only [SetExpr.constrained, exprFrom, List.mem_append, PositionSet.mem_toList, PositionSet.mem_diff,
      PositionSet.mem_below] at hp
    rcases hp with (hp | hp) | hp
    · exact hbefore.uppers p hp.1
    · exact hbefore.lowers p hp.1
    · exact hp.1.1

theorem valid (h : Compiled induced demands levels) : Level.Valid levels := by
  refine ⟨h.root, ?_⟩
  intro k level hk hlevel
  obtain ⟨hlt, -⟩ := Array.getElem?_eq_some_iff.mp hlevel
  obtain ⟨e, he, hlevel'⟩ := h.inner k hk hlt
  obtain rfl := Option.some.inj (hlevel.symm.trans hlevel')
  rcases exprOf?_eq_some he with ⟨p, hp, rfl⟩ | ⟨first, hfirst, rfl⟩
  · exact h.good_exprFrom (usableBase?_eq_some hp).1.2 (Or.inr ⟨p, rfl⟩)
  · exact h.good_exprFrom ((h.before k).neighbors first hfirst) (Or.inl ⟨first, rfl⟩)

end Compiled

/-! ## Existence -/

namespace Plan

/-- For each level the levels whose vertices have to be above its own. -/
def aboveFor (p : Pattern) (o : CompileOptions) : Array PositionSet :=
  Restriction.closure (Restriction.table p.bindingOrder o.restrictions)

def demandsFor (p : Pattern) (o : CompileOptions) (k : Nat) : Demands :=
  ((Array.range p.bindingOrder.length).map (Demands.ofLevel p p.bindingOrder (aboveFor p o))).getD k .none

variable {p : Pattern} {o : CompileOptions}

theorem demandsFor_of_lt {k : Nat} (hk : k < p.size) :
    demandsFor p o k = Demands.ofLevel p p.bindingOrder (aboveFor p o) k := by
  have hlen : k < p.bindingOrder.length := p.length_bindingOrder.symm ▸ hk
  simp [demandsFor, hlen]

theorem demandsFor_of_le {k : Nat} (hk : p.size ≤ k) : demandsFor p o k = .none := by
  have hlen : ¬k < p.bindingOrder.length := by
    rw [p.length_bindingOrder]
    exact Nat.not_lt_of_le hk
  simp [demandsFor, hlen]

theorem mem_neighbors {k j : Nat} (hk : k < p.size) :
    j ∈ (demandsFor p o k).neighbors ↔
      j < k ∧ p.Adjacent (p.bindingOrder.getD j 0) (p.bindingOrder.getD k 0) := by
  simp [demandsFor_of_lt hk, Demands.ofLevel]

theorem mem_uppers {k j : Nat} (hk : k < p.size) :
    j ∈ (demandsFor p o k).uppers ↔ j < k ∧ Restriction.Above (aboveFor p o) k j := by
  simp [demandsFor_of_lt hk, Demands.ofLevel, Restriction.Above, and_comm]

theorem mem_lowers {k j : Nat} (hk : k < p.size) :
    j ∈ (demandsFor p o k).lowers ↔ j < k ∧ Restriction.Above (aboveFor p o) j k := by
  simp [demandsFor_of_lt hk, Demands.ofLevel, Restriction.Above]

theorem before_demandsFor (k : Nat) : (demandsFor p o k).Before k := by
  rcases Nat.lt_or_ge k p.size with hk | hk
  · exact ⟨fun j hj => ((mem_neighbors hk).mp hj).1, fun j hj => ((mem_uppers hk).mp hj).1,
      fun j hj => ((mem_lowers hk).mp hj).1⟩
  · rw [demandsFor_of_le hk]
    exact ⟨fun j hj => (PositionSet.not_mem_empty j hj).elim, fun j hj => (PositionSet.not_mem_empty j hj).elim,
      fun j hj => (PositionSet.not_mem_empty j hj).elim⟩

/-- Every level of a connected pattern but the first has a base to start from. -/
theorem exists_exprOf? (hp : p.isConnected = true) {k : Nat} (hk : 1 ≤ k) (hlt : k < p.size) :
    ∃ e, exprOf? o.induced (demandsFor p o) k = some e := by
  unfold exprOf?
  cases usableBase? o.induced (demandsFor p o) k with
  | some q => exact ⟨_, rfl⟩
  | none =>
      cases hfirst : (demandsFor p o k).neighbors.first? with
      | some first => exact ⟨_, rfl⟩
      | none =>
          have hget : p.bindingOrder[k]? = some (p.bindingOrder.getD k 0) := by
            simp [List.getD_eq_getElem?_getD, p.length_bindingOrder, hlt]
          obtain ⟨j, b, hj, hb, hadjacent⟩ := Pattern.anchored_bindingOrder hp hk hget
          have hb' : p.bindingOrder.getD j 0 = b := by rw [List.getD_eq_getElem?_getD, hb, Option.getD_some]
          exact (PositionSet.not_mem_of_first? hfirst j
            ((mem_neighbors hlt).mpr ⟨hj, hb'.symm ▸ hadjacent⟩)).elim

theorem levelsFor_eq_ok (hp : p.isConnected = true) :
    ∃ levels, levelsFor p o = .ok levels ∧ levels.size = p.size ∧
      Compiled o.induced (demandsFor p o) levels := by
  let make : Nat → Level := fun k => ⟨(exprOf? o.induced (demandsFor p o) k).getD (.ofBase .all), none⟩
  refine ⟨(⟨.ofBase .all, none⟩ :: (List.range' 1 (p.bindingOrder.length - 1)).map make).toArray, ?_, ?_,
    rfl, fun k hk hlt => ?_, before_demandsFor⟩
  · refine congrArg (· >>= fun inner => .ok (⟨.ofBase .all, none⟩ :: inner).toArray) (mapM_eq_ok (g := make) ?_)
    intro k hk
    rw [List.mem_range'_1, p.length_bindingOrder] at hk
    obtain ⟨e, he⟩ := exists_exprOf? (o := o) hp hk.1 (by omega)
    simp only [make, he, Option.getD_some]
    unfold demandsFor aboveFor at he
    rw [he]
  · have := p.size_pos
    simp only [List.size_toArray, List.length_cons, List.length_map, List.length_range', p.length_bindingOrder]
    omega
  · simp only [List.size_toArray, List.length_cons, List.length_map, List.length_range',
      p.length_bindingOrder] at hlt
    obtain ⟨e, he⟩ := exists_exprOf? (o := o) hp hk (by omega)
    refine ⟨e, he, ?_⟩
    obtain ⟨i, rfl⟩ := Nat.exists_eq_add_of_le hk
    have hi : i < p.bindingOrder.length - 1 := by
      rw [p.length_bindingOrder]
      omega
    rw [List.getElem?_toArray, Nat.add_comm 1 i, List.getElem?_cons_succ, List.getElem?_map,
      List.getElem?_range' hi]
    simp only [Option.map_some, make, Nat.one_mul, he, Option.getD_some]

end Plan

end PatternCount
