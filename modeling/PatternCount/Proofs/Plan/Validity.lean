import PatternCount.Plan.Nest
import PatternCount.Proofs.Outcome

/-!
# What the check of a plan accepts

`Level.check` goes through a list of levels and stops at the first fault. `Level.Valid` says without any order
what it is that is checked, and `Level.check_eq_ok_iff` that the two agree. Whatever is proved of a plan at
hand starts from `Plan.isValid`, and a list of levels that is shown to be `Valid` makes a plan.

The condition on a cached lookup (`GoodRef`) is the one with content. The row that the cache of level `c` holds
for the vertex at position `p` is only part of the row of that vertex in the graph; it can stand for the whole
because `c` is on the base chain of `p`, so that the vertex is in the cache, and on that of the base, so that
everything the row is compared with lies in the candidates of level `c`.
-/

namespace PatternCount

namespace Level

/-! ## What is demanded -/

/-- What level `k`, whose base is `base`, may refer to. -/
def GoodRef (levels : Array Level) (k : Nat) (base : SetRef) : SetRef → Prop
  | .all => False
  | .adjacency p => p < k
  | .candidates l => l < k
  | .cached c p => p < k ∧ (1 ≤ c ∧ c ≤ p ∧ isCaching levels c = true) ∧ c ∈ baseChain levels p
      ∧ ∃ q, base = .candidates q ∧ c ∈ baseChain levels q

def GoodParent (levels : Array Level) (k parent : Nat) : Prop :=
  (parent < k ∧ isCaching levels parent = true) ∧ parent ∈ baseChain levels k

structure Good (levels : Array Level) (k : Nat) (level : Level) : Prop where
  base : (∃ p, level.candidates.base = .adjacency p) ∨ ∃ q, level.candidates.base = .candidates q
  refs : ∀ r ∈ level.candidates.refs, GoodRef levels k level.candidates.base r
  constrained : ∀ p ∈ level.candidates.constrained, p < k
  cache : ∀ spec, level.cache = some spec →
    k + 1 < levels.size ∧ ∀ parent, spec.parent = some parent → GoodParent levels k parent

/-- What a list of levels has to be. -/
structure Valid (levels : Array Level) : Prop where
  root : levels[0]? = some ⟨.ofBase .all, none⟩
  inner : ∀ k level, 1 ≤ k → levels[k]? = some level → Good levels k level

/-! ## The checks -/

section Checks

variable {levels : Array Level} {k : Nat} {base : SetRef}

theorem checkRef_eq_ok_iff {r : SetRef} : checkRef levels k base r = .ok () ↔ GoodRef levels k base r := by
  cases r with
  | all =>
      constructor
      · intro h
        cases h
      · intro h
        exact h.elim
  | adjacency p =>
      by_cases hp : p < k
      · simp [checkRef, GoodRef, hp]
      · simp [checkRef, GoodRef, hp]
  | candidates l =>
      by_cases hl : l < k
      · simp [checkRef, GoodRef, hl]
      · simp [checkRef, GoodRef, hl]
  | cached c p =>
      simp only [checkRef, GoodRef]
      by_cases hp : p < k
      · by_cases hc : 1 ≤ c ∧ c ≤ p ∧ isCaching levels c = true
        · by_cases hin : c ∈ baseChain levels p
          · rw [if_neg (not_not_intro hp), if_neg (not_not_intro hc), if_neg (not_not_intro hin)]
            cases base with
            | candidates q =>
                by_cases hq : c ∈ baseChain levels q
                · simp [hp, hc, hin, hq]
                · simp [hq]
            | all => simp
            | adjacency p => simp
            | cached c p => simp
          · rw [if_neg (not_not_intro hp), if_neg (not_not_intro hc), if_pos hin]
            simp only [reduceCtorEq, hin, false_and, and_false]
        · rw [if_neg (not_not_intro hp), if_pos hc]
          simp only [reduceCtorEq, hc, false_and, and_false]
      · rw [if_pos hp]
        simp only [reduceCtorEq, hp, false_and]

theorem checkBase_eq_ok_iff :
    checkBase k base = .ok () ↔ (∃ p, base = .adjacency p) ∨ ∃ q, base = .candidates q := by
  cases base <;> simp [checkBase]

theorem checkRefs_eq_ok_iff : ∀ {refs : List SetRef},
    checkRefs levels k base refs = .ok () ↔ ∀ r ∈ refs, GoodRef levels k base r
  | [] => by simp [checkRefs]
  | r :: rest => by
      rw [checkRefs, check_bind_eq_ok_iff, mapError_eq_ok_iff, checkRef_eq_ok_iff,
        checkRefs_eq_ok_iff, List.forall_mem_cons]

theorem checkConstraints_eq_ok_iff {positions : List Nat} :
    checkConstraints k positions = .ok () ↔ ∀ p ∈ positions, p < k := by
  unfold checkConstraints
  cases h : positions.find? (k ≤ ·) with
  | none => simpa using h
  | some p =>
      have hp := List.find?_some h
      have hmem := List.mem_of_find?_eq_some h
      refine ⟨nofun, ?_⟩
      intro h
      have := h p hmem
      simp only [decide_eq_true_eq] at hp
      omega

theorem checkParent_eq_ok_iff {parent? : Option Nat} :
    checkParent levels k parent? = .ok () ↔ ∀ parent, parent? = some parent → GoodParent levels k parent := by
  cases parent? with
  | none => simp [checkParent]
  | some parent =>
      simp only [checkParent, GoodParent, Option.some.injEq, forall_eq']
      by_cases hlt : parent < k ∧ isCaching levels parent = true
      · by_cases hin : parent ∈ baseChain levels k <;> simp [hlt, hin]
      · rw [if_pos hlt]
        exact ⟨nofun, fun h => (hlt h.1).elim⟩

theorem checkCache_eq_ok_iff {cache : Option CacheSpec} :
    checkCache levels k cache = .ok () ↔ ∀ spec, cache = some spec →
      k + 1 < levels.size ∧ ∀ parent, spec.parent = some parent → GoodParent levels k parent := by
  cases cache with
  | none => simp [checkCache]
  | some spec =>
      simp only [checkCache, Option.some.injEq, forall_eq']
      by_cases hlt : k + 1 < levels.size
      · rw [if_pos hlt, checkParent_eq_ok_iff]
        exact ⟨fun h => ⟨hlt, h⟩, fun h => h.2⟩
      · rw [if_neg hlt]
        exact ⟨nofun, fun h => (hlt h.1).elim⟩

theorem checkInner_eq_ok_iff {level : Level} : checkInner levels k level = .ok () ↔ Good levels k level := by
  have hstep : checkInner levels k level = (do
      checkBase k level.candidates.base
      checkRefs levels k level.candidates.base level.candidates.refs
      checkConstraints k level.candidates.constrained
      checkCache levels k level.cache) := rfl
  rw [hstep, check_bind_eq_ok_iff, check_bind_eq_ok_iff, check_bind_eq_ok_iff, checkBase_eq_ok_iff,
    checkRefs_eq_ok_iff, checkConstraints_eq_ok_iff, checkCache_eq_ok_iff]
  exact ⟨fun ⟨h1, h2, h3, h4⟩ => ⟨h1, h2, h3, h4⟩, fun ⟨h1, h2, h3, h4⟩ => ⟨h1, h2, h3, h4⟩⟩

theorem checkFrom_eq_ok_iff : ∀ {rest : List Level} {k : Nat},
    checkFrom levels k rest = .ok () ↔ ∀ i level, rest[i]? = some level → Good levels (k + i) level
  | [], k => by simp [checkFrom]
  | level :: rest, k => by
      rw [checkFrom, check_bind_eq_ok_iff, checkInner_eq_ok_iff, checkFrom_eq_ok_iff]
      constructor
      · rintro ⟨hlevel, hrest⟩ i level' hi
        cases i with
        | zero =>
            obtain rfl := Option.some.inj hi
            exact hlevel
        | succ i =>
            rw [← Nat.add_assoc, Nat.add_right_comm]
            exact hrest i level' hi
      · intro h
        refine ⟨h 0 level rfl, ?_⟩
        intro i level' hi
        rw [Nat.add_right_comm, Nat.add_assoc]
        exact h (i + 1) level' hi

theorem checkRoot_eq_ok_iff {root : Level} : checkRoot root = .ok () ↔ root = ⟨.ofBase .all, none⟩ := by
  obtain ⟨e, cache⟩ := root
  unfold checkRoot
  by_cases he : e = .ofBase .all
  · cases cache <;> simp [he]
  · rw [if_pos he]
    exact ⟨nofun, fun h => (he (congrArg Level.candidates h)).elim⟩

end Checks

/-- The check accepts the valid lists of levels and no others. -/
theorem check_eq_ok_iff {levels : Array Level} : check levels = .ok () ↔ Valid levels := by
  have hget : ∀ i : Nat, levels[i]? = levels.toList[i]? := fun i => Array.getElem?_toList.symm
  unfold check
  cases hlist : levels.toList with
  | nil =>
      refine ⟨nofun, ?_⟩
      intro h
      have hroot := h.root
      rw [hget, hlist] at hroot
      cases hroot
  | cons root rest =>
      show (do checkRoot root; checkFrom levels 1 rest) = .ok () ↔ _
      rw [check_bind_eq_ok_iff, checkRoot_eq_ok_iff, checkFrom_eq_ok_iff]
      constructor
      · rintro ⟨hroot, hrest⟩
        refine ⟨by rw [hget, hlist, hroot]; rfl, ?_⟩
        intro k level hk hlevel
        obtain ⟨i, rfl⟩ := Nat.exists_eq_add_of_le hk
        rw [hget, hlist, Nat.add_comm, List.getElem?_cons_succ] at hlevel
        exact hrest i level hlevel
      · intro h
        have hroot := h.root
        rw [hget, hlist] at hroot
        refine ⟨Option.some.inj hroot, fun i level hi => h.inner (1 + i) level (by omega) ?_⟩
        rw [hget, hlist, Nat.add_comm, List.getElem?_cons_succ]
        exact hi

/-- A row of a cache is for the vertex of an earlier level that the cache holds. -/
theorem Valid.cached_ref {levels : Array Level} (h : Valid levels) {k : Nat} {level : Level}
    (hlevel : levels[k]? = some level) {c p : Nat} (href : .cached c p ∈ level.candidates.refs) :
    p < k ∧ (1 ≤ c ∧ c ≤ p ∧ isCaching levels c = true) ∧ c ∈ baseChain levels p := by
  rcases Nat.eq_zero_or_pos k with rfl | hk
  · rw [h.root] at hlevel
    obtain rfl := Option.some.inj hlevel
    simp [SetExpr.ofBase, SetExpr.refs] at href
  · obtain ⟨hp, hc, hchain, -⟩ := (h.inner k level hk hlevel).refs _ href
    exact ⟨hp, hc, hchain⟩

/-- The base of a level is an earlier level. -/
theorem Valid.baseLevel?_lt {levels : Array Level} (h : Valid levels) {k q : Nat}
    (hq : baseLevel? levels k = some q) : q < k := by
  unfold baseLevel? at hq
  split at hq
  · next hlevel =>
      obtain rfl := Option.some.inj hq
      rcases Nat.eq_zero_or_pos k with rfl | hk
      · rw [h.root] at hlevel
        cases hlevel
      · exact (h.inner k _ hk hlevel).refs _ List.mem_cons_self
  · cases hq

end Level

namespace Plan

theorem isValid (p : Plan) : Level.Valid p.levels := Level.check_eq_ok_iff.mp p.valid

theorem depth_pos (p : Plan) : 0 < p.depth := by
  have := p.isValid.root
  exact (Array.getElem?_eq_some_iff.mp this).1

theorem ofLevels_eq_ok {levels : Array Level} (h : Level.Valid levels) :
    ∃ p, ofLevels levels = .ok p ∧ p.levels = levels := by
  unfold ofLevels
  split
  · exact ⟨_, rfl, rfl⟩
  · next e he =>
      rw [Level.check_eq_ok_iff.mpr h] at he
      cases he

end Plan

end PatternCount
