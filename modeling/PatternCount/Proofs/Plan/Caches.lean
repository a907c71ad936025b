import PatternCount.Plan.OfPattern
import PatternCount.Proofs.Plan.Meaning

/-!
# Reading adjacency from caches

`Level.throughCaches` lets the operations of a plan read rows from caches where it can, and has the caches built.
Nothing else about a level changes (`getElem?_throughCaches`), so that base chains stay what they are, and a plan
stays a plan (`Valid.throughCaches`) with the same meaning (`meaning_throughCaches`). A row is read from the cache
of a level only where that level is on the chain of the row's vertex and on that of the base, which is just what
makes the reading valid.
-/

namespace PatternCount.Level

variable {levels : Array Level}

/-! ## Base chains -/

theorem le_of_mem_baseChain {k c : Nat} (h : c ∈ baseChain levels k) : c ≤ k := by
  induction k using Nat.strongRecOn with
  | ind k ih =>
      rw [baseChain] at h
      split at h
      · next q _ =>
          split at h
          · next hlt =>
              rcases List.mem_cons.mp h with rfl | h
              · exact Nat.le_refl _
              · exact Nat.le_trans (ih q hlt h) (Nat.le_of_lt hlt)
          · exact Nat.le_of_eq (List.mem_singleton.mp h)
      · exact Nat.le_of_eq (List.mem_singleton.mp h)

theorem lt_of_mem_tail_baseChain {k c : Nat} (h : c ∈ (baseChain levels k).tail) : c < k := by
  rw [baseChain] at h
  split at h
  · split at h
    · next hlt => exact Nat.lt_of_le_of_lt (le_of_mem_baseChain h) hlt
    · cases h
  · cases h

theorem baseChain_congr {levels' : Array Level} (h : ∀ k, baseLevel? levels' k = baseLevel? levels k) (k : Nat) :
    baseChain levels' k = baseChain levels k := by
  induction k using Nat.strongRecOn with
  | ind k ih =>
      rw [baseChain, baseChain, h]
      cases baseLevel? levels k with
      | none => rfl
      | some q =>
          by_cases hlt : q < k
          · simp only [hlt, if_true, ih q hlt]
          · simp only [hlt, if_false]

/-! ## One operation -/

/-- A cache that serves is on the chains of both the base and the position. -/
theorem servingCache?_eq_some {base position c : Nat} (h : servingCache? levels base position = some c) :
    c ∈ baseChain levels base ∧ 1 ≤ c ∧ c ∈ baseChain levels position := by
  unfold servingCache? at h
  have hmem := List.mem_of_find?_eq_some h
  have hserves := List.find?_some h
  simp only [Bool.and_eq_true, decide_eq_true_eq] at hserves
  exact ⟨List.mem_reverse.mp hmem, hserves⟩

/-- An operation stays as it is or reads the row of the same vertex from a cache that serves. -/
theorem throughCache_cases (levels : Array Level) (base : Nat) (op : SetOp) :
    throughCache levels base op = op ∨ ∃ j c, op.operand = .adjacency j ∧
      servingCache? levels base j = some c ∧ throughCache levels base op = op.withOperand (.cached c j) := by
  unfold throughCache
  split
  · next j hj =>
      by_cases hzero : j = 0
      · exact Or.inl (if_pos hzero)
      · rw [if_neg hzero]
        cases hc : servingCache? levels base j with
        | none => exact Or.inl rfl
        | some c => exact Or.inr ⟨j, c, hj, hc, rfl⟩
  · exact Or.inl rfl

@[simp] theorem operand_withOperand {op : SetOp} {r : SetRef} : (op.withOperand r).operand = r := by
  cases op <;> rfl

theorem keeps_throughCache {base : Nat} {op : SetOp} {g : HostGraph} {bound : Nat → Nat}
    {sets : Nat → Set Nat} {v : Nat} :
    (throughCache levels base op).Keeps g bound sets v ↔ op.Keeps g bound sets v := by
  rcases throughCache_cases levels base op with h | ⟨j, c, hj, -, h⟩
  · rw [h]
  · rw [h]
    cases op with
    | intersect r =>
        obtain rfl : r = .adjacency j := hj
        exact Iff.rfl
    | subtract r =>
        obtain rfl : r = .adjacency j := hj
        exact Iff.rfl

/-! ## One level -/

theorem rerouted_eq (levels : Array Level) (level : Level) :
    rerouted levels level = { level with candidates := { level.candidates with
      ops := (rerouted levels level).candidates.ops } } := by
  unfold rerouted
  split <;> rfl

theorem mem_ops_rerouted {level : Level} {op : SetOp} (h : op ∈ (rerouted levels level).candidates.ops) :
    op ∈ level.candidates.ops ∨
      ∃ q op', level.candidates.base = .candidates q ∧ op' ∈ level.candidates.ops ∧
        throughCache levels q op' = op := by
  unfold rerouted at h
  split at h
  · next q hq =>
      obtain ⟨op', hop', heq⟩ := List.mem_map.mp h
      exact Or.inr ⟨q, op', hq, hop', heq⟩
  · exact Or.inl h

theorem mem_meaning_rerouted {level : Level} {g : HostGraph} {bound : Nat → Nat} {sets : Nat → Set Nat}
    {v : Nat} : v ∈ (rerouted levels level).candidates.meaning g bound sets
      ↔ v ∈ level.candidates.meaning g bound sets := by
  unfold rerouted
  split
  · rw [SetExpr.mem_meaning, SetExpr.mem_meaning]
    refine and_congr Iff.rfl (and_congr_left' ?_)
    rw [List.forall_mem_map]
    exact forall₂_congr fun op _ => keeps_throughCache
  · exact Iff.rfl

/-! ## All levels -/

/-- The levels whose caches are read once the levels have been rerouted. -/
def cachesOf (levels : Array Level) : List Nat :=
  (levels.map (rerouted levels)).toList.flatMap fun level => cachesRead level.candidates

/-- What becomes of a level: its operations are rerouted, and it has a cache if one is read. -/
theorem getElem?_throughCaches (levels : Array Level) (k : Nat) :
    (throughCaches levels)[k]? = levels[k]?.map fun level =>
      if k ∈ cachesOf levels then
        { rerouted levels level with cache := some ⟨enclosing? levels (cachesOf levels) k⟩ }
      else rerouted levels level := by
  simp only [throughCaches, Array.getElem?_mapIdx, Array.getElem?_map, Option.map_map]
  rfl

@[simp] theorem size_throughCaches (levels : Array Level) : (throughCaches levels).size = levels.size := by
  simp [throughCaches]

theorem of_getElem?_throughCaches {k : Nat} {level' : Level} (h : (throughCaches levels)[k]? = some level') :
    ∃ level, levels[k]? = some level ∧ level'.candidates = (rerouted levels level).candidates ∧
      (k ∈ cachesOf levels ∧ level'.cache = some ⟨enclosing? levels (cachesOf levels) k⟩ ∨
        k ∉ cachesOf levels ∧ level'.cache = level.cache) := by
  rw [getElem?_throughCaches] at h
  obtain ⟨level, hlevel, rfl⟩ := Option.map_eq_some_iff.mp h
  refine ⟨level, hlevel, ?_⟩
  by_cases hk : k ∈ cachesOf levels
  · exact ⟨by rw [if_pos hk], Or.inl ⟨hk, by rw [if_pos hk]⟩⟩
  · exact ⟨by rw [if_neg hk], Or.inr ⟨hk, by rw [if_neg hk, rerouted_eq]⟩⟩

theorem baseLevel?_throughCaches (levels : Array Level) (k : Nat) :
    baseLevel? (throughCaches levels) k = baseLevel? levels k := by
  unfold baseLevel?
  rw [getElem?_throughCaches]
  cases levels[k]? with
  | none => rfl
  | some level =>
      rw [Option.map_some, rerouted_eq]
      generalize (rerouted levels level).candidates.ops = ops
      obtain ⟨⟨base, _, _, _, _⟩, _⟩ := level
      by_cases hk : k ∈ cachesOf levels
      · simp only [hk, if_true]
        cases base <;> rfl
      · simp only [hk, if_false]
        cases base <;> rfl

@[simp] theorem baseChain_throughCaches (levels : Array Level) (k : Nat) :
    baseChain (throughCaches levels) k = baseChain levels k :=
  baseChain_congr (baseLevel?_throughCaches levels) k

/-- Reading from caches makes no difference to what the levels mean. -/
theorem meaning_throughCaches {g : HostGraph} {bound : Nat → Nat} {k : Nat} :
    meaning (throughCaches levels) g bound k = meaning levels g bound k := by
  induction k using Nat.strongRecOn with
  | ind k ih =>
      have hsets : earlier (throughCaches levels) g bound k = earlier levels g bound k := by
        funext l
        ext v
        rw [mem_earlier, mem_earlier]
        exact and_congr_right fun hl => by rw [ih l hl]
      ext v
      cases hlevel : (throughCaches levels)[k]? with
      | none =>
          have hk := Array.getElem?_eq_none_iff.mp hlevel
          exact iff_of_false (not_mem_meaning hk) (not_mem_meaning (size_throughCaches levels ▸ hk))
      | some level' =>
          obtain ⟨level, hold, hcandidates, -⟩ := of_getElem?_throughCaches hlevel
          rw [mem_meaning hlevel, mem_meaning hold, hcandidates, hsets, mem_meaning_rerouted]

/-! ## Validity -/

/-- A cache that is read is that of a level that is not the first and not the last. -/
theorem bounds_of_mem_cachesOf (h : Valid levels) {c : Nat} (hc : c ∈ cachesOf levels) :
    1 ≤ c ∧ c + 1 < levels.size := by
  obtain ⟨level', hlevel', hread⟩ := List.mem_flatMap.mp hc
  rw [Array.toList_map] at hlevel'
  obtain ⟨level, hlevel, rfl⟩ := List.mem_map.mp hlevel'
  obtain ⟨k, hk⟩ := List.mem_iff_getElem?.mp hlevel
  rw [Array.getElem?_toList] at hk
  obtain ⟨hlt, -⟩ := Array.getElem?_eq_some_iff.mp hk
  obtain ⟨op, hop, hoperand⟩ := List.mem_filterMap.mp hread
  obtain ⟨p, hp⟩ : ∃ p, op.operand = .cached c p := by
    split at hoperand
    · next c' p hp =>
        obtain rfl := Option.some.inj hoperand
        exact ⟨p, hp⟩
    · cases hoperand
  cases k with
  | zero =>
      rw [h.root] at hk
      obtain rfl := Option.some.inj hk
      cases hop
  | succ k =>
      have hgood := h.inner _ level (by omega) hk
      have hrefs : ∀ op ∈ level.candidates.ops,
          GoodRef levels (k + 1) level.candidates.base op.operand := fun op hop =>
        hgood.refs _ (List.mem_cons_of_mem _ (List.mem_map_of_mem hop))
      rcases mem_ops_rerouted hop with hop | ⟨q, op', -, hop', rfl⟩
      · have href := hrefs op hop
        rw [hp] at href
        obtain ⟨hpk, ⟨hc1, hcp, -⟩, -⟩ := href
        exact ⟨hc1, by omega⟩
      · rcases throughCache_cases levels q op' with heq | ⟨j, d, hj, hserves, heq⟩
        · have href := hrefs op' hop'
          rw [← heq, hp] at href
          obtain ⟨hpk, ⟨hc1, hcp, -⟩, -⟩ := href
          exact ⟨hc1, by omega⟩
        · rw [heq, operand_withOperand] at hp
          obtain ⟨rfl, rfl⟩ := SetRef.cached.inj hp
          obtain ⟨-, hc1, hchain⟩ := servingCache?_eq_some hserves
          have href := hrefs op' hop'
          rw [hj] at href
          have hle := le_of_mem_baseChain hchain
          have hjk : j < k + 1 := href
          exact ⟨hc1, by omega⟩

theorem isCaching_of_mem_cachesOf (h : Valid levels) {c : Nat} (hc : c ∈ cachesOf levels) :
    isCaching (throughCaches levels) c = true := by
  have hlt : c < levels.size := Nat.lt_of_succ_lt (bounds_of_mem_cachesOf h hc).2
  rw [isCaching, getElem?_throughCaches, Array.getElem?_eq_getElem hlt, Option.map_some, if_pos hc]
  rfl

theorem isCaching_throughCaches {c : Nat} (hc : isCaching levels c = true) :
    isCaching (throughCaches levels) c = true := by
  unfold isCaching at hc ⊢
  rw [getElem?_throughCaches]
  split at hc
  · next level hlevel =>
      rw [hlevel, Option.map_some]
      by_cases hk : c ∈ cachesOf levels
      · simp only [hk, if_true]
        rfl
      · simp only [hk, if_false]
        rw [rerouted_eq]
        exact hc
  · cases hc

theorem GoodRef.throughCaches {k : Nat} {base r : SetRef} (h : GoodRef levels k base r) :
    GoodRef (throughCaches levels) k base r := by
  cases r with
  | all => exact h
  | adjacency p => exact h
  | candidates l => exact h
  | cached c p =>
      obtain ⟨hp, ⟨hc1, hcp, hcaching⟩, hchain, q, hq, hqchain⟩ := h
      exact ⟨hp, ⟨hc1, hcp, isCaching_throughCaches hcaching⟩, by rwa [baseChain_throughCaches], q, hq,
        by rwa [baseChain_throughCaches]⟩

/-- A cache that is read has been enclosed in one that is read too. -/
theorem goodParent_enclosing (h : Valid levels) {k parent : Nat}
    (hparent : enclosing? levels (cachesOf levels) k = some parent) :
    GoodParent (throughCaches levels) k parent := by
  unfold enclosing? at hparent
  have hmem := List.mem_of_find?_eq_some hparent
  have hread := List.find?_some hparent
  simp only [Bool.and_eq_true, decide_eq_true_eq] at hread
  exact ⟨⟨lt_of_mem_tail_baseChain hmem, isCaching_of_mem_cachesOf h hread.2⟩,
    by rw [baseChain_throughCaches]; exact List.mem_of_mem_tail hmem⟩

theorem goodRef_rerouted (h : Valid levels) {k : Nat} {level : Level} (hk : levels[k]? = some level)
    (hgood : Good levels k level) {op : SetOp} (hop : op ∈ (rerouted levels level).candidates.ops) :
    GoodRef (throughCaches levels) k level.candidates.base op.operand := by
  have hrefs : ∀ op ∈ level.candidates.ops, GoodRef levels k level.candidates.base op.operand := fun op hop =>
    hgood.refs _ (List.mem_cons_of_mem _ (List.mem_map_of_mem hop))
  rcases mem_ops_rerouted hop with hop' | ⟨q, op', hq, hop', hrouted⟩
  · exact (hrefs op hop').throughCaches
  · rcases throughCache_cases levels q op' with heq | ⟨j, c, hj, hserves, heq⟩
    · rw [← hrouted, heq]
      exact (hrefs op' hop').throughCaches
    · obtain ⟨hqchain, hc1, hchain⟩ := servingCache?_eq_some hserves
      have hread : c ∈ cachesOf levels := by
        refine List.mem_flatMap.mpr ⟨rerouted levels level, ?_, List.mem_filterMap.mpr ⟨op, hop, ?_⟩⟩
        · rw [Array.toList_map]
          exact List.mem_map_of_mem (List.mem_of_getElem? (by rw [Array.getElem?_toList]; exact hk))
        · rw [← hrouted, heq, operand_withOperand]
      have href := hrefs op' hop'
      rw [hj] at href
      rw [← hrouted, heq, operand_withOperand]
      exact ⟨href, ⟨hc1, le_of_mem_baseChain hchain, isCaching_of_mem_cachesOf h hread⟩,
        by rwa [baseChain_throughCaches], q, hq, by rwa [baseChain_throughCaches]⟩

/-- Levels that can be carried out can be carried out with caches. -/
theorem Valid.throughCaches (h : Valid levels) : Valid (throughCaches levels) := by
  constructor
  · have hzero : 0 ∉ cachesOf levels := fun hmem => absurd (bounds_of_mem_cachesOf h hmem).1 (by decide)
    rw [getElem?_throughCaches, h.root, Option.map_some, if_neg hzero]
    rfl
  · intro k level' hk hlevel'
    obtain ⟨level, hlevel, hcandidates, hcache⟩ := of_getElem?_throughCaches hlevel'
    have hgood := h.inner k level hk hlevel
    have hrerouted : level'.candidates
        = { level.candidates with ops := (rerouted levels level).candidates.ops } := by
      rw [hcandidates, rerouted_eq]
    refine ⟨?_, List.forall_mem_cons.mpr ⟨?_, ?_⟩, ?_, ?_⟩
    · rw [hrerouted]
      exact hgood.base
    · rw [hrerouted]
      exact (hgood.refs _ List.mem_cons_self).throughCaches
    · rw [hrerouted]
      exact List.forall_mem_map.mpr fun op hop => goodRef_rerouted h hlevel hgood hop
    · rw [hrerouted]
      exact hgood.constrained
    · intro spec hspec
      rw [size_throughCaches]
      rcases hcache with ⟨hread, hcache⟩ | ⟨-, hcache⟩
      · obtain rfl := Option.some.inj (hcache.symm.trans hspec)
        exact ⟨(bounds_of_mem_cachesOf h hread).2, fun parent hparent => goodParent_enclosing h hparent⟩
      · obtain ⟨hlt, hparent⟩ := hgood.cache spec (hcache ▸ hspec)
        refine ⟨hlt, ?_⟩
        intro parent hspec
        obtain ⟨⟨hpk, hcaching⟩, hchain⟩ := hparent parent hspec
        exact ⟨⟨hpk, isCaching_throughCaches hcaching⟩, by rwa [baseChain_throughCaches]⟩

end PatternCount.Level
