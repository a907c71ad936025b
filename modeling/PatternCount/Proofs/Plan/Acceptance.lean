import PatternCount.Proofs.Plan.Embeddings

/-!
# Which patterns are given a plan

`Plan.ofPattern` refuses a pattern for two reasons only: it is not connected, or a restriction does not relate
two of its positions (`ofPattern_eq_error`). The other two errors never come up: every position but the first to
be bound has a neighbour to start from, and the levels that are made are `Level.Valid`, with caches and without.

The chains that caches are chosen from are made by following bases. `Level.Follows levels k chain` says that
following bases from level `k`, wherever they lead, comes to an end after the levels in `chain`; among levels that
are valid it always does, and the chain is the base chain (`follows_baseChain`).
-/

namespace PatternCount

namespace Level

/-- Following bases from a level, whatever levels they name, ends after the levels of the chain. -/
inductive Follows (levels : Array Level) : Nat → List Nat → Prop where
  | stop {k : Nat} (h : baseLevel? levels k = none) : Follows levels k [k]
  | next {k q : Nat} {chain : List Nat} (h : baseLevel? levels k = some q) (hq : Follows levels q chain) :
      Follows levels k (k :: chain)

variable {levels : Array Level}

theorem follows_baseChain (h : Valid levels) (k : Nat) : Follows levels k (baseChain levels k) := by
  induction k using Nat.strongRecOn with
  | ind k ih =>
      rw [baseChain]
      cases hq : baseLevel? levels k with
      | none => exact .stop hq
      | some q =>
          have hlt := h.baseLevel?_lt hq
          simp only [if_pos hlt]
          exact .next hq (ih q hlt)

end Level

namespace Plan

variable {p : Pattern} {o : CompileOptions}

theorem checkRestrictions_eq_error {size : Nat} {restrictions : List (Nat × Nat)} {e : CompileError}
    (h : checkRestrictions size restrictions = .error e) :
    ∃ r ∈ restrictions, ¬(r.1 < size ∧ r.2 < size ∧ r.1 ≠ r.2) ∧ e = .invalidRestriction r.1 r.2 := by
  unfold checkRestrictions at h
  split at h
  · next a b hbad =>
      have hmem := List.mem_of_find?_eq_some hbad
      have hfalse := List.find?_some hbad
      exact ⟨(a, b), hmem, of_decide_eq_true hfalse, (Except.error.inj h).symm⟩
  · cases h

theorem ofPattern_of_not_connected (hp : ¬p.Connected) : ofPattern p o = .error .disconnected := by
  have hfalse : p.isConnected = false :=
    Bool.eq_false_iff.mpr fun h => hp (Pattern.connected_of_isConnected h)
  simp only [ofPattern, hfalse]
  rfl

theorem ofPattern_of_badRestriction (hp : p.Connected) {e : CompileError}
    (h : checkRestrictions p.size o.restrictions = .error e) : ofPattern p o = .error e := by
  simp only [ofPattern, Pattern.isConnected_of_connected hp, h, bind, Except.bind]
  rfl

/-- A pattern is refused because it is not connected or because of a restriction, and for nothing else. -/
theorem ofPattern_eq_error {e : CompileError} (h : ofPattern p o = .error e) :
    e = .disconnected ∧ ¬p.Connected ∨
      ∃ r ∈ o.restrictions, ¬(r.1 < p.size ∧ r.2 < p.size ∧ r.1 ≠ r.2) ∧ e = .invalidRestriction r.1 r.2 := by
  by_cases hp : p.Connected
  · right
    cases hcheck : checkRestrictions p.size o.restrictions with
    | error f =>
        obtain rfl := Except.error.inj (h.symm.trans (ofPattern_of_badRestriction hp hcheck))
        exact checkRestrictions_eq_error hcheck
    | ok u =>
        obtain ⟨plan, -, hplan, -⟩ := ofPattern_eq_ok (Pattern.isConnected_of_connected hp)
          (checkRestrictions_eq_ok_iff.mp hcheck)
        rw [h] at hplan
        cases hplan
  · exact Or.inl ⟨Except.error.inj (h.symm.trans (ofPattern_of_not_connected hp)), hp⟩

/-- Whatever is given a plan is connected, with restrictions between its positions. -/
theorem connected_of_ofPattern {plan : Plan} (h : ofPattern p o = .ok plan) :
    p.Connected ∧ ∀ r ∈ o.restrictions, r.1 < p.size ∧ r.2 < p.size ∧ r.1 ≠ r.2 := by
  by_cases hp : p.Connected
  · refine ⟨hp, ?_⟩
    cases hcheck : checkRestrictions p.size o.restrictions with
    | error e =>
        rw [ofPattern_of_badRestriction hp hcheck] at h
        cases h
    | ok u => exact checkRestrictions_eq_ok_iff.mp hcheck
  · rw [ofPattern_of_not_connected hp] at h
    cases h

/-- A pattern is given a plan exactly if it is connected and every restriction relates two of its positions; all
other patterns are refused for one of these reasons. Positions are always bound in an order in which each occurs
once, and for a connected pattern all but the first of them have an earlier neighbour. The levels that are made
pass the check, whether or not adjacency is then read from caches, and following bases among them comes to an
end. -/
theorem ofPattern_accepts (p : Pattern) (o : CompileOptions) :
    ((∃ plan, ofPattern p o = .ok plan) ↔
        p.Connected ∧ ∀ r ∈ o.restrictions, r.1 < p.size ∧ r.2 < p.size ∧ r.1 ≠ r.2) ∧
      (∀ e, ofPattern p o = .error e → e = .disconnected ∧ ¬p.Connected ∨
        ∃ r ∈ o.restrictions, ¬(r.1 < p.size ∧ r.2 < p.size ∧ r.1 ≠ r.2) ∧ e = .invalidRestriction r.1 r.2) ∧
      p.bindingOrder.Perm (List.range p.size) ∧
      (p.Connected →
        (∀ k a, 0 < k → p.bindingOrder[k]? = some a →
          ∃ j b, j < k ∧ p.bindingOrder[j]? = some b ∧ p.Adjacent b a) ∧
        ∃ levels, levelsFor p o = .ok levels ∧ levels.size = p.size ∧
          (∀ k, Level.Follows levels k (Level.baseChain levels k) ∧
            Level.Follows (Level.throughCaches levels) k (Level.baseChain levels k)) ∧
          Level.check levels = .ok () ∧ Level.check (Level.throughCaches levels) = .ok ()) := by
  refine ⟨⟨fun ⟨_, h⟩ => connected_of_ofPattern h, ?_⟩, fun e => ofPattern_eq_error, p.bindingOrder_perm, ?_⟩
  · rintro ⟨hp, ho⟩
    obtain ⟨plan, -, hplan, -⟩ := ofPattern_eq_ok (Pattern.isConnected_of_connected hp) ho
    exact ⟨plan, hplan⟩
  · intro hconnected
    have hp := Pattern.isConnected_of_connected hconnected
    obtain ⟨levels, hlevels, hsize, hcompiled⟩ := levelsFor_eq_ok (o := o) hp
    have hvalid := hcompiled.valid
    refine ⟨fun k a hk ha => Pattern.anchored_bindingOrder hp hk ha, levels, hlevels, hsize, fun k => ⟨?_, ?_⟩,
      Level.check_eq_ok_iff.mpr hvalid, Level.check_eq_ok_iff.mpr hvalid.throughCaches⟩
    · exact Level.follows_baseChain hvalid k
    · rw [← Level.baseChain_throughCaches levels k]
      exact Level.follows_baseChain hvalid.throughCaches k

end Plan

end PatternCount
