import Mathlib.Algebra.BigOperators.Group.Finset.Sigma
import Mathlib.Data.Fintype.Pi
import Mathlib.SetTheory.Cardinal.NatCard
import PatternCount.Proofs.Plan.Meaning

/-!
# Tuples of vertices

A tuple has a vertex for each level of a plan. It carries out the plan if each of its vertices is a candidate of
its level, given the vertices before it, and `Level.tupleCount` is the number of such tuples: the number that a
search is to find.

A search binds one position after another, so what it counts on the way are the `completions` of the vertices
bound so far. They are counted by counting, for every candidate of the next level, what is left once it is
bound too (`card_completions`); when all levels are bound, the tuple itself is the one completion.
-/

namespace PatternCount.Level

variable {levels : Array Level} {g : HostGraph}

def vertexOf {d n : Nat} (t : Fin d → Fin n) (p : Nat) : Nat := if h : p < d then t ⟨p, h⟩ else 0

@[simp] theorem vertexOf_val {d n : Nat} (t : Fin d → Fin n) (p : Fin d) : vertexOf t p = t p :=
  dif_pos p.isLt

/-- Every vertex of the tuple is a candidate of its level. -/
def Carries (levels : Array Level) (g : HostGraph) (t : Fin levels.size → Fin g.vertexCount) : Prop :=
  ∀ k : Fin levels.size, (t k : Nat) ∈ meaning levels g (vertexOf t) k

noncomputable def tupleCount (levels : Array Level) (g : HostGraph) : Nat :=
  Nat.card {t // Carries levels g t}

theorem tupleCount_le : tupleCount levels g ≤ g.vertexCount ^ levels.size := by
  refine (Finite.card_subtype_le _).trans (Nat.le_of_eq ?_)
  rw [Nat.card_eq_fintype_card, Fintype.card_fun, Fintype.card_fin, Fintype.card_fin]

open Classical in
/-- The tuples that begin with the vertices bound below position `k` and go on with candidates. -/
noncomputable def completions (levels : Array Level) (g : HostGraph) (k : Nat) (bound : Nat → Nat) :
    Finset (Fin levels.size → Fin g.vertexCount) :=
  Finset.univ.filter fun t => (∀ i : Fin levels.size, i < k → (t i : Nat) = bound i)
    ∧ ∀ i : Fin levels.size, k ≤ i → (t i : Nat) ∈ meaning levels g (vertexOf t) i

theorem mem_completions {k : Nat} {bound : Nat → Nat} {t : Fin levels.size → Fin g.vertexCount} :
    t ∈ completions levels g k bound ↔ (∀ i : Fin levels.size, i < k → (t i : Nat) = bound i)
      ∧ ∀ i : Fin levels.size, k ≤ i → (t i : Nat) ∈ meaning levels g (vertexOf t) i := by
  simp [completions]

theorem card_completions_zero (bound : Nat → Nat) :
    (completions levels g 0 bound).card = tupleCount levels g := by
  refine (Nat.subtype_card _ ?_).symm
  intro t
  rw [mem_completions]
  exact ⟨fun h k => h.2 k (Nat.zero_le _), fun h => ⟨fun i hi => (Nat.not_lt_zero _ hi).elim, fun i _ => h i⟩⟩

theorem card_completions_size {bound : Nat → Nat} (hbound : ∀ p < levels.size, bound p < g.vertexCount) :
    (completions levels g levels.size bound).card = 1 := by
  refine Finset.card_eq_one.mpr ⟨fun i => ⟨bound i, hbound i i.isLt⟩, ?_⟩
  ext t
  rw [mem_completions, Finset.mem_singleton]
  constructor
  · intro h
    funext i
    exact Fin.ext (h.1 i i.isLt)
  · rintro rfl
    exact ⟨fun _ _ => rfl, fun i hi => (Nat.not_le_of_lt i.isLt hi).elim⟩

/-- A completion binds a candidate to the next position and completes what is bound then. -/
theorem mem_completions_iff (h : Valid levels) {k : Nat} (hk : k < levels.size) {bound : Nat → Nat}
    {t : Fin levels.size → Fin g.vertexCount} :
    t ∈ completions levels g k bound ↔
      ∃ v ∈ meaning levels g bound k, t ∈ completions levels g (k + 1) (Function.update bound k v) := by
  have hsame : (∀ i : Fin levels.size, i < k → (t i : Nat) = bound i) →
      meaning levels g (vertexOf t) k = meaning levels g bound k := fun ht =>
    meaning_congr h fun p hp => by
      have := ht ⟨p, Nat.lt_trans hp hk⟩ hp
      rw [vertexOf, dif_pos (Nat.lt_trans hp hk)]
      exact this
  rw [mem_completions]
  constructor
  · rintro ⟨hbefore, hafter⟩
    refine ⟨t ⟨k, hk⟩, hsame hbefore ▸ hafter ⟨k, hk⟩ (Nat.le_refl _), mem_completions.mpr ⟨?_, ?_⟩⟩
    · intro i hi
      rcases Nat.lt_succ_iff_lt_or_eq.mp hi with hi | hi
      · rw [Function.update_of_ne (Nat.ne_of_lt hi)]
        exact hbefore i hi
      · obtain rfl : i = ⟨k, hk⟩ := Fin.ext hi
        rw [Function.update_self]
    · exact fun i hi => hafter i (Nat.le_of_succ_le hi)
  · rintro ⟨v, hv, ht⟩
    obtain ⟨hbefore, hafter⟩ := mem_completions.mp ht
    have hbefore' : ∀ i : Fin levels.size, i < k → (t i : Nat) = bound i := fun i hi => by
      rw [hbefore i (Nat.lt_succ_of_lt hi), Function.update_of_ne (Nat.ne_of_lt hi)]
    refine ⟨hbefore', ?_⟩
    intro i hi
    rcases Nat.eq_or_lt_of_le hi with hi | hi
    · obtain rfl : i = ⟨k, hk⟩ := Fin.ext hi.symm
      rw [hbefore ⟨k, hk⟩ (Nat.lt_succ_self k), Function.update_self, hsame hbefore']
      exact hv
    · exact hafter i hi

/-- The completions are counted by the vertex that they bind next. -/
theorem card_completions (h : Valid levels) {k : Nat} (hk : k < levels.size) {bound : Nat → Nat}
    {candidates : VertexSet} (hset : ∀ v, v ∈ candidates ↔ v ∈ meaning levels g bound k) :
    (completions levels g k bound).card
      = (candidates.toList.map fun v =>
          (completions levels g (k + 1) (Function.update bound k v)).card).sum := by
  classical
  have hunion : completions levels g k bound = candidates.toList.toFinset.biUnion fun v =>
      completions levels g (k + 1) (Function.update bound k v) := by
    ext t
    rw [mem_completions_iff h hk, Finset.mem_biUnion]
    exact exists_congr fun v => and_congr_left' (by rw [List.mem_toFinset, VertexSet.mem_toList, hset])
  rw [hunion, Finset.card_biUnion, ← List.sum_toFinset _ candidates.ascending_toList.nodup]
  intro v _ w _ hne
  refine Finset.disjoint_left.mpr fun t htv htw => hne ?_
  have hv := (mem_completions.mp htv).1 ⟨k, hk⟩ (Nat.lt_succ_self k)
  have hw := (mem_completions.mp htw).1 ⟨k, hk⟩ (Nat.lt_succ_self k)
  rw [Function.update_self] at hv hw
  exact hv.symm.trans hw

end PatternCount.Level
