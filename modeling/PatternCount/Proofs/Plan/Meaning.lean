import Mathlib.Data.Set.Basic
import PatternCount.Proofs.HostGraph.Rows
import PatternCount.Proofs.Plan.Validity

/-!
# What the levels of a plan mean

A plan says, for every level, which set of vertices its position ranges over once the earlier positions are
bound. Here that set is read off the plan without caches, buffers or frames: `Level.meaning levels g bound k`
is the set of candidates of level `k` where `bound p` is the vertex bound at position `p`. The row of a bound
vertex and the row that a cache holds for it mean the same thing, the row in the graph.

- **locality** (`Level.meaning_congr`): the meaning of a level depends on the earlier positions only.
- **containment** (`Level.meaning_subset`): along a base chain the sets grow towards the outside. This is why a
  cache over the candidates of a level on the chain can answer for the levels further in.
-/

namespace PatternCount

section Meaning

variable (g : HostGraph) (bound : Nat → Nat) (sets : Nat → Set Nat)

/-- The set that a reference stands for, where `sets l` are the candidates of level `l`. -/
def SetRef.meaning : SetRef → Set Nat
  | .all => {v | v < g.vertexCount}
  | .adjacency p => {v | g.Edge (bound p) v}
  | .candidates l => sets l
  | .cached _ p => {v | g.Edge (bound p) v}

/-- What an operation leaves of the running set. -/
def SetOp.onSet (op : SetOp) (running : Set Nat) : Set Nat :=
  match op with
  | .intersect r => running ∩ r.meaning g bound sets
  | .subtract r => running \ r.meaning g bound sets

namespace SetExpr

def boundedMeaning (e : SetExpr) : Set Nat :=
  {v | v ∈ e.base.meaning g bound sets ∧ (∀ p ∈ e.upper, v < bound p) ∧ ∀ p ∈ e.lower, bound p < v}

/-- The set that an expression describes: the bounded base, under the operations from left to right, without
the excluded vertices. -/
def meaning (e : SetExpr) : Set Nat :=
  {v | v ∈ e.ops.foldl (fun running op => op.onSet g bound sets running) (e.boundedMeaning g bound sets)
    ∧ ∀ p ∈ e.exclude, v ≠ bound p}

end SetExpr

end Meaning

/-- The candidates of level `k`, where `bound p` is the vertex bound at position `p`. A set that a level
refers to is that of an earlier level. -/
def Level.meaning (levels : Array Level) (g : HostGraph) (bound : Nat → Nat) (k : Nat) : Set Nat :=
  match levels[k]? with
  | none => ∅
  | some level =>
      level.candidates.meaning g bound fun l => {v | ∃ _ : l < k, v ∈ meaning levels g bound l}
termination_by k

def Level.earlier (levels : Array Level) (g : HostGraph) (bound : Nat → Nat) (k l : Nat) : Set Nat :=
  {v | ∃ _ : l < k, v ∈ Level.meaning levels g bound l}

/-! ## Members -/

section Members

variable {g : HostGraph} {bound : Nat → Nat} {sets : Nat → Set Nat} {v : Nat}

def SetOp.Keeps (g : HostGraph) (bound : Nat → Nat) (sets : Nat → Set Nat) (v : Nat) : SetOp → Prop
  | .intersect r => v ∈ r.meaning g bound sets
  | .subtract r => v ∉ r.meaning g bound sets

theorem SetOp.mem_onSet {op : SetOp} {running : Set Nat} :
    v ∈ op.onSet g bound sets running ↔ v ∈ running ∧ op.Keeps g bound sets v := by
  cases op <;> exact Iff.rfl

theorem SetOp.mem_foldl_onSet : ∀ {ops : List SetOp} {running : Set Nat},
    v ∈ ops.foldl (fun running op => op.onSet g bound sets running) running
      ↔ v ∈ running ∧ ∀ op ∈ ops, op.Keeps g bound sets v
  | [], _ => by simp
  | op :: rest, running => by
      rw [List.foldl_cons, mem_foldl_onSet, mem_onSet, and_assoc, List.forall_mem_cons]

namespace SetExpr

theorem mem_boundedMeaning {e : SetExpr} :
    v ∈ e.boundedMeaning g bound sets ↔
      v ∈ e.base.meaning g bound sets ∧ (∀ p ∈ e.upper, v < bound p) ∧ ∀ p ∈ e.lower, bound p < v := Iff.rfl

theorem mem_meaning {e : SetExpr} :
    v ∈ e.meaning g bound sets ↔
      v ∈ e.boundedMeaning g bound sets ∧ (∀ op ∈ e.ops, op.Keeps g bound sets v)
        ∧ ∀ p ∈ e.exclude, v ≠ bound p := by
  show _ ∧ _ ↔ _
  rw [SetOp.mem_foldl_onSet, and_assoc]

theorem mem_meaning_ofBase {base : SetRef} :
    v ∈ (ofBase base).meaning g bound sets ↔ v ∈ base.meaning g bound sets := by
  simp [mem_meaning, mem_boundedMeaning, ofBase]

end SetExpr

theorem Level.mem_meaning {levels : Array Level} {k : Nat} {level : Level} (h : levels[k]? = some level) :
    v ∈ Level.meaning levels g bound k
      ↔ v ∈ level.candidates.meaning g bound (Level.earlier levels g bound k) := by
  rw [Level.meaning, h]
  rfl

theorem Level.mem_meaning_zero {levels : Array Level} (h : Valid levels) :
    v ∈ Level.meaning levels g bound 0 ↔ v < g.vertexCount := by
  rw [Level.mem_meaning h.root]
  exact SetExpr.mem_meaning_ofBase

theorem Level.not_mem_meaning {levels : Array Level} {k : Nat} (h : levels.size ≤ k) :
    v ∉ Level.meaning levels g bound k := by
  rw [Level.meaning, Array.getElem?_eq_none h]
  exact Set.notMem_empty v

theorem Level.mem_earlier {levels : Array Level} {k l : Nat} :
    v ∈ Level.earlier levels g bound k l ↔ l < k ∧ v ∈ Level.meaning levels g bound l :=
  ⟨fun ⟨h, hv⟩ => ⟨h, hv⟩, fun ⟨h, hv⟩ => ⟨h, hv⟩⟩

end Members

/-! ## Locality -/

namespace Level

variable {levels : Array Level} {g : HostGraph}

/-- What a good reference means depends on the positions and sets before the level only. -/
theorem GoodRef.meaning_congr {k : Nat} {base r : SetRef} (hr : GoodRef levels k base r)
    {b b' : Nat → Nat} (hb : ∀ p < k, b p = b' p) {sets sets' : Nat → Set Nat}
    (hsets : ∀ l < k, sets l = sets' l) : r.meaning g b sets = r.meaning g b' sets' := by
  cases r with
  | all => rfl
  | adjacency p => simp only [SetRef.meaning, hb p hr]
  | candidates l => exact hsets l hr
  | cached c p => simp only [SetRef.meaning, hb p hr.1]

theorem Good.mem_congr {k : Nat} {level : Level} (h : Good levels k level) {b b' : Nat → Nat}
    (hb : ∀ p < k, b p = b' p) {sets sets' : Nat → Set Nat} (hsets : ∀ l < k, sets l = sets' l) {v : Nat} :
    v ∈ level.candidates.meaning g b sets ↔ v ∈ level.candidates.meaning g b' sets' := by
  obtain ⟨e, cache⟩ := level
  have hbase : e.base.meaning g b sets = e.base.meaning g b' sets' :=
    (h.refs _ List.mem_cons_self).meaning_congr hb hsets
  have hops : ∀ op ∈ e.ops, (op.Keeps g b sets v ↔ op.Keeps g b' sets' v) := fun op hop => by
    have hr := (h.refs op.operand (List.mem_cons_of_mem _ (List.mem_map_of_mem hop))).meaning_congr
      (g := g) hb hsets
    cases op with
    | intersect r => exact (Set.ext_iff.mp hr v)
    | subtract r => exact not_congr (Set.ext_iff.mp hr v)
  have hconstrained : ∀ p, p ∈ e.upper ∨ p ∈ e.lower ∨ p ∈ e.exclude → b p = b' p := fun p hp =>
    hb p (h.constrained p (by simpa [SetExpr.constrained] using hp))
  show v ∈ e.meaning g b sets ↔ v ∈ e.meaning g b' sets'
  rw [SetExpr.mem_meaning, SetExpr.mem_meaning, SetExpr.mem_boundedMeaning, SetExpr.mem_boundedMeaning,
    hbase]
  refine and_congr (and_congr_right fun _ => and_congr ?_ ?_) (and_congr ?_ ?_)
  · exact forall₂_congr fun p hp => by rw [hconstrained p (Or.inl hp)]
  · exact forall₂_congr fun p hp => by rw [hconstrained p (Or.inr (Or.inl hp))]
  · exact forall₂_congr hops
  · exact forall₂_congr fun p hp => by rw [hconstrained p (Or.inr (Or.inr hp))]

/-- The candidates of a level depend on the vertices bound at earlier positions only. -/
theorem meaning_congr (h : Valid levels) {b b' : Nat → Nat} {k : Nat} (hb : ∀ p < k, b p = b' p) :
    meaning levels g b k = meaning levels g b' k := by
  induction k using Nat.strongRecOn with
  | ind k ih =>
      have hsets : ∀ l < k, earlier levels g b k l = earlier levels g b' k l := fun l hl => by
        ext v
        rw [mem_earlier, mem_earlier, ih l hl fun p hp => hb p (Nat.lt_trans hp hl)]
      ext v
      cases k with
      | zero => rw [mem_meaning_zero h, mem_meaning_zero h]
      | succ k =>
          cases hlevel : levels[k + 1]? with
          | none =>
              have hk := Array.getElem?_eq_none_iff.mp hlevel
              exact iff_of_false (not_mem_meaning hk) (not_mem_meaning hk)
          | some level =>
              rw [mem_meaning hlevel, mem_meaning hlevel]
              exact (h.inner _ level (by omega) hlevel).mem_congr hb hsets

/-! ## Containment -/

/-- A level whose base is the candidates of another lies within them. -/
theorem meaning_subset_base {b : Nat → Nat} {k q : Nat} (hq : baseLevel? levels k = some q) :
    meaning levels g b k ⊆ meaning levels g b q := by
  intro v hv
  unfold baseLevel? at hq
  split at hq
  · next hlevel =>
      obtain rfl := Option.some.inj hq
      rw [mem_meaning hlevel, SetExpr.mem_meaning, SetExpr.mem_boundedMeaning] at hv
      exact (mem_earlier.mp hv.1.1).2
  · cases hq

/-- The candidates of a level lie within those of every level on its base chain. -/
theorem meaning_subset {b : Nat → Nat} {c k : Nat} (hc : c ∈ baseChain levels k) :
    meaning levels g b k ⊆ meaning levels g b c := by
  induction k using Nat.strongRecOn with
  | ind k ih =>
      rw [baseChain] at hc
      split at hc
      · next q hq =>
          split at hc
          · next hlt =>
              rcases List.mem_cons.mp hc with rfl | hc
              · exact Set.Subset.rfl
              · exact (meaning_subset_base hq).trans (ih q hlt hc)
          · obtain rfl := List.mem_singleton.mp hc
            exact Set.Subset.rfl
      · obtain rfl := List.mem_singleton.mp hc
        exact Set.Subset.rfl

end Level

/-! ## Candidates are vertices -/

theorem HostGraph.Edge.lt_source {g : HostGraph} {u v : Nat} (h : g.Edge u v) : u < g.vertexCount := by
  obtain ⟨row, hrow, -⟩ := h
  obtain ⟨bounds, hbounds, -⟩ := bind_eq_ok_iff.mp hrow
  unfold rowBounds at hbounds
  split at hbounds
  · next hlt => exact Nat.lt_sub_of_add_lt hlt
  · cases hbounds

theorem HostGraph.Edge.lt_target {g : HostGraph} (hg : g.Closed) {u v : Nat} (h : g.Edge u v) :
    v < g.vertexCount := by
  obtain ⟨row, hrow, hv⟩ := hg u h.lt_source
  exact hv v ((edge_iff_mem hrow).mp h)

theorem Level.lt_of_mem_meaning {levels : Array Level} (h : Valid levels) {g : HostGraph} (hg : g.Closed)
    {b : Nat → Nat} {k v : Nat} (hv : v ∈ meaning levels g b k) : v < g.vertexCount := by
  induction k using Nat.strongRecOn with
  | ind k ih =>
      cases k with
      | zero => exact (mem_meaning_zero h).mp hv
      | succ k =>
          cases hlevel : levels[k + 1]? with
          | none => exact (not_mem_meaning (Array.getElem?_eq_none_iff.mp hlevel) hv).elim
          | some level =>
              rw [mem_meaning hlevel, SetExpr.mem_meaning, SetExpr.mem_boundedMeaning] at hv
              have hbase := hv.1.1
              rcases (h.inner _ level (by omega) hlevel).base with ⟨p, hp⟩ | ⟨q, hq⟩
              · rw [hp] at hbase
                exact HostGraph.Edge.lt_target hg hbase
              · rw [hq] at hbase
                obtain ⟨hlt, hmem⟩ := mem_earlier.mp hbase
                exact ih q hlt hmem

end PatternCount
