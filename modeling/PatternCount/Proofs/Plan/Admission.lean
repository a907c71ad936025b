import Mathlib.Logic.Relation
import PatternCount.Proofs.Plan.Indexed

/-!
# Which lists of levels make a plan

`Level.Admissible` says of a list of levels, without chains and without an order of checks, what it takes to make a
plan. What a cache may be read for is said by reachability: `Level.Reaches levels k c` follows bases from level `k`
to level `c`, whatever levels they name. In a list at hand bases may lead forwards, to the level itself or nowhere;
in one that passes the other checks every base is an earlier level, and there the levels that are reached are those
on the base chain (`mem_baseChain_iff`). So the check accepts the admissible lists and no others, and the way to its
answer never leads past an end (`Plan.ofLevels_accepts`).
-/

namespace PatternCount

namespace Level

/-! ## Reachability -/

/-- The base of level `k` is the candidates of level `q`. -/
def Links (levels : Array Level) (k q : Nat) : Prop :=
  ∃ level, levels[k]? = some level ∧ level.candidates.base = .candidates q

def Reaches (levels : Array Level) : Nat → Nat → Prop := Relation.ReflTransGen (Links levels)

def Caches (levels : Array Level) (c : Nat) : Prop := ∃ level, levels[c]? = some level ∧ level.cache ≠ none

/-- What level `k`, whose base is `base`, may use as an operand. -/
def OperandAt (levels : Array Level) (k : Nat) (base : SetRef) : SetRef → Prop
  | .all => False
  | .adjacency p => p < k
  | .candidates p => p < k
  | .cached c p => (1 ≤ c ∧ c ≤ p ∧ p < k) ∧ Caches levels c ∧ Reaches levels p c ∧
      ∃ q, base = .candidates q ∧ Reaches levels q c

structure AdmissibleAt (levels : Array Level) (k : Nat) (level : Level) : Prop where
  base : ∃ p < k, level.candidates.base = .adjacency p ∨ level.candidates.base = .candidates p
  operands : ∀ op ∈ level.candidates.ops, OperandAt levels k level.candidates.base op.operand
  upper : ∀ p ∈ level.candidates.upper, p < k
  lower : ∀ p ∈ level.candidates.lower, p < k
  exclude : ∀ p ∈ level.candidates.exclude, p < k
  cache : ∀ spec, level.cache = some spec → k + 1 < levels.size ∧
    ∀ parent, spec.parent = some parent → parent < k ∧ Caches levels parent ∧ Reaches levels k parent

/-- What a list of levels has to be to make a plan. -/
structure Admissible (levels : Array Level) : Prop where
  root : levels[0]? = some ⟨⟨.all, [], [], [], []⟩, none⟩
  inner : ∀ k level, 1 ≤ k → levels[k]? = some level → AdmissibleAt levels k level

variable {levels : Array Level}

theorem baseLevel?_eq_some_iff {k q : Nat} : baseLevel? levels k = some q ↔ Links levels k q := by
  unfold baseLevel? Links
  constructor
  · intro h
    split at h
    · next hlevel => exact ⟨_, hlevel, congrArg _ (Option.some.inj h)⟩
    · cases h
  · rintro ⟨⟨⟨base, _, _, _, _⟩, _⟩, hlevel, rfl⟩
    rw [hlevel]

theorem isCaching_iff {c : Nat} : isCaching levels c = true ↔ Caches levels c := by
  unfold isCaching Caches
  cases levels[c]? with
  | none => simp
  | some level => simp [Option.isSome_iff_ne_none]

/-- Where every base is an earlier level, the base chain holds the levels that are reached. -/
theorem mem_baseChain_iff (h : ∀ k q, Links levels k q → q < k) {c k : Nat} :
    c ∈ baseChain levels k ↔ Reaches levels k c := by
  induction k using Nat.strongRecOn with
  | ind k ih =>
      rw [baseChain, Reaches, Relation.ReflTransGen.cases_head_iff]
      cases hq : baseLevel? levels k with
      | none =>
          have hnone : ¬∃ q, Links levels k q ∧ Relation.ReflTransGen (Links levels) q c := by
            rintro ⟨q, hlink, -⟩
            rw [baseLevel?_eq_some_iff.mpr hlink] at hq
            cases hq
          rw [List.mem_singleton, or_iff_left hnone]
          exact eq_comm
      | some q =>
          have hlink := baseLevel?_eq_some_iff.mp hq
          have hlt := h k q hlink
          simp only [if_pos hlt, List.mem_cons, ih q hlt]
          refine or_congr eq_comm ⟨fun hreach => ⟨q, hlink, hreach⟩, ?_⟩
          rintro ⟨q', hlink', hreach⟩
          obtain rfl := Option.some.inj (hq.symm.trans (baseLevel?_eq_some_iff.mpr hlink'))
          exact hreach

/-! ## Admissible levels -/

theorem goodRef_iff (h : ∀ k q, Links levels k q → q < k) {k : Nat} {base r : SetRef} :
    GoodRef levels k base r ↔ OperandAt levels k base r := by
  cases r with
  | cached c p =>
      simp only [GoodRef, OperandAt, mem_baseChain_iff h, isCaching_iff]
      constructor
      · rintro ⟨hp, ⟨hc, hcp, hcaches⟩, hreach⟩
        exact ⟨⟨hc, hcp, hp⟩, hcaches, hreach⟩
      · rintro ⟨⟨hc, hcp, hp⟩, hcaches, hreach⟩
        exact ⟨hp, ⟨hc, hcp, hcaches⟩, hreach⟩
  | all => rfl
  | adjacency p => rfl
  | candidates l => rfl

theorem goodParent_iff (h : ∀ k q, Links levels k q → q < k) {k parent : Nat} :
    GoodParent levels k parent ↔ parent < k ∧ Caches levels parent ∧ Reaches levels k parent := by
  rw [GoodParent, isCaching_iff, mem_baseChain_iff h, and_assoc]

theorem Good.admissibleAt (h : ∀ k q, Links levels k q → q < k) {k : Nat} {level : Level}
    (hgood : Good levels k level) : AdmissibleAt levels k level := by
  have hconstrained : ∀ p, p ∈ level.candidates.upper ∨ p ∈ level.candidates.lower
      ∨ p ∈ level.candidates.exclude → p < k := by
    intro p hp
    exact hgood.constrained p (by simpa [SetExpr.constrained] using hp)
  constructor
  case base =>
    have hbase := hgood.refs _ List.mem_cons_self
    rcases hgood.base with ⟨p, hp⟩ | ⟨p, hp⟩
    · rw [hp] at hbase
      exact ⟨p, hbase, .inl hp⟩
    · rw [hp] at hbase
      exact ⟨p, hbase, .inr hp⟩
  case operands =>
    intro op hop
    exact (goodRef_iff h).mp (hgood.refs _ (List.mem_cons_of_mem _ (List.mem_map_of_mem hop)))
  case upper => exact fun p hp => hconstrained p (.inl hp)
  case lower => exact fun p hp => hconstrained p (.inr (.inl hp))
  case exclude => exact fun p hp => hconstrained p (.inr (.inr hp))
  case cache =>
    intro spec hspec
    obtain ⟨hlast, hparent⟩ := hgood.cache spec hspec
    exact ⟨hlast, fun parent hp => (goodParent_iff h).mp (hparent parent hp)⟩

theorem AdmissibleAt.good (h : ∀ k q, Links levels k q → q < k) {k : Nat} {level : Level}
    (hadmissible : AdmissibleAt levels k level) : Good levels k level := by
  obtain ⟨p, hp, hbase⟩ := hadmissible.base
  constructor
  case base => exact hbase.imp (fun hb => ⟨p, hb⟩) fun hb => ⟨p, hb⟩
  case refs =>
    intro r hr
    rcases List.mem_cons.mp hr with rfl | hr
    · rcases hbase with hb | hb <;> rw [hb] <;> exact hp
    · obtain ⟨op, hop, rfl⟩ := List.mem_map.mp hr
      exact (goodRef_iff h).mpr (hadmissible.operands op hop)
  case constrained =>
    intro p hp
    simp only [SetExpr.constrained, List.mem_append, or_assoc] at hp
    rcases hp with hp | hp | hp
    · exact hadmissible.upper p hp
    · exact hadmissible.lower p hp
    · exact hadmissible.exclude p hp
  case cache =>
    intro spec hspec
    obtain ⟨hlast, hparent⟩ := hadmissible.cache spec hspec
    exact ⟨hlast, fun parent hp => (goodParent_iff h).mpr (hparent parent hp)⟩

/-- Bases of admissible levels are earlier levels. -/
theorem Admissible.lt_of_links (h : Admissible levels) {k q : Nat} (hlink : Links levels k q) : q < k := by
  obtain ⟨level, hlevel, hbase⟩ := hlink
  rcases Nat.eq_zero_or_pos k with rfl | hk
  · rw [h.root] at hlevel
    obtain rfl := Option.some.inj hlevel
    cases hbase
  · obtain ⟨p, hp, hp' | hp'⟩ := (h.inner k level hk hlevel).base
    · rw [hp'] at hbase
      cases hbase
    · rw [hp'] at hbase
      obtain rfl := SetRef.candidates.inj hbase
      exact hp

theorem valid_iff : Valid levels ↔ Admissible levels := by
  constructor
  · intro h
    have hlinks : ∀ k q, Links levels k q → q < k := fun k q hlink =>
      h.baseLevel?_lt (baseLevel?_eq_some_iff.mpr hlink)
    exact ⟨h.root, fun k level hk hlevel => (h.inner k level hk hlevel).admissibleAt hlinks⟩
  · intro h
    have hlinks : ∀ k q, Links levels k q → q < k := fun _ _ => h.lt_of_links
    exact ⟨h.root, fun k level hk hlevel => (h.inner k level hk hlevel).good hlinks⟩

end Level

/-- Whatever the levels, making a plan of them comes to an end without a fault, and succeeds exactly if they are
admissible. -/
theorem Plan.ofLevels_accepts (levels : Array Level) :
    (∀ f, makeAt levels ≠ .error (.fault f)) ∧
      makeAt levels = Stop.ofCheck ((ofLevels levels).map info) ∧
      ((∃ p, ofLevels levels = .ok p) ↔ Level.Admissible levels) := by
  refine ⟨?_, makeAt_eq levels, ?_, ?_⟩
  · intro f hf
    rw [makeAt_eq] at hf
    cases hplan : ofLevels levels with
    | ok p =>
        rw [hplan] at hf
        cases hf
    | error e =>
        rw [hplan] at hf
        cases hf
  · rintro ⟨p, hp⟩
    unfold ofLevels at hp
    split at hp
    · next h => exact Level.valid_iff.mp (Level.check_eq_ok_iff.mp h)
    · cases hp
  · intro h
    obtain ⟨p, hp, -⟩ := ofLevels_eq_ok (Level.valid_iff.mpr h)
    exact ⟨p, hp⟩

end PatternCount
