import Mathlib.Data.List.Perm.Subperm
import Mathlib.Logic.Relation
import PatternCount.Pattern.Basic
import PatternCount.Proofs.Pattern.Positions

/-!
# Connected patterns

`Pattern.isConnected` spreads from position zero and counts the positions it comes to. Every position that is
counted can be reached along edges of the pattern (`reachable_of_mem_reached`), so that in a connected pattern
all of them can; and no edge leaves the positions that are counted (`Spread.closed_spread`), so that all that can be
reached are counted. It holds therefore just of the patterns in which any two positions are joined
(`connected_of_isConnected`, `isConnected_of_connected`). What is used of this later is that a connected pattern
cannot be cut without cutting an edge (`exists_crossing_edge`).
-/

namespace PatternCount.Pattern

variable {p : Pattern}

theorem Adjacent.symm {a b : Nat} (h : p.Adjacent a b) : p.Adjacent b a := Pattern.symm p h

theorem Adjacent.lt_right {a b : Nat} (h : p.Adjacent a b) : b < p.size := p.lt_size h

theorem not_adjacent_self (a : Nat) : ¬p.Adjacent a a := p.irrefl a

/-- `b` can be reached from `a` along edges of the pattern. -/
def Joined (p : Pattern) : Nat → Nat → Prop := Relation.ReflTransGen p.Adjacent

theorem Joined.symm {a b : Nat} (h : p.Joined a b) : p.Joined b a := by
  induction h with
  | refl => exact .refl
  | tail _ hcb ih => exact Relation.ReflTransGen.head hcb.symm ih

/-! ## Spreading -/

/-- Spreading does not leave a set of positions that no edge leaves. -/
theorem spread_subset {C : Nat → Prop} (hC : ∀ a b, C a → p.Adjacent a b → C b) :
    ∀ {steps : Nat} {seen frontier : PositionSet}, (∀ a ∈ seen, C a) → (∀ a ∈ frontier, C a) →
      ∀ a ∈ p.spread steps seen frontier, C a
  | 0, _, _, hseen, _ => hseen
  | steps + 1, seen, frontier, hseen, hfrontier => by
      rw [spread]
      cases hfirst : frontier.first? with
      | none => exact hseen
      | some a =>
          have ha : C a := hfrontier a (PositionSet.mem_of_first? hfirst)
          have hfresh : ∀ b ∈ (p.row a).diff seen, C b := fun b hb =>
            hC a b ha (PositionSet.mem_diff.mp hb).1
          refine spread_subset hC ?_ ?_
          · intro b hb
            exact (PositionSet.mem_union.mp hb).elim (hseen b) (hfresh b)
          · intro b hb
            exact (PositionSet.mem_union.mp hb).elim
              (fun hb => hfrontier b (PositionSet.mem_diff.mp hb).1) (hfresh b)

theorem reachable_of_mem_reached {a : Nat} (h : a ∈ p.reached) : p.Joined 0 a := by
  have hzero : ∀ b ∈ PositionSet.ofList [0], p.Joined 0 b := fun b hb => by
    obtain rfl := List.mem_singleton.mp (PositionSet.mem_ofList.mp hb)
    exact .refl
  exact spread_subset (fun b c hb hbc => Relation.ReflTransGen.tail hb hbc) hzero hzero a h

theorem joined_zero (h : p.isConnected = true) {a : Nat} (ha : a < p.size) : p.Joined 0 a := by
  have hlen : p.reached.toList.length = p.size := of_decide_eq_true h
  have hsub : p.reached.toList ⊆ List.range p.size := fun b hb => by
    rw [List.mem_range]
    rcases (reachable_of_mem_reached (PositionSet.mem_toList.mp hb)).cases_tail with rfl | ⟨c, -, hc⟩
    · exact p.size_pos
    · exact hc.lt_right
  -- As many positions as the pattern has, and none of them twice, are all of them.
  have hperm : p.reached.toList.Perm (List.range p.size) :=
    (List.subperm_of_subset p.reached.nodup_toList hsub).perm_of_length_le
      (Nat.le_of_eq (by rw [hlen, List.length_range]))
  exact reachable_of_mem_reached (PositionSet.mem_toList.mp (hperm.mem_iff.mpr (List.mem_range.mpr ha)))

/-! ## Spreading comes to its end -/

theorem mem_spread : ∀ {steps : Nat} {seen frontier : PositionSet} {a : Nat},
    a ∈ seen → a ∈ p.spread steps seen frontier
  | 0, _, _, _, h => h
  | steps + 1, seen, frontier, a, h => by
      rw [spread]
      split
      · exact h
      · exact mem_spread (PositionSet.mem_union.mpr (.inl h))

/-- How far spreading has come: the edges of the positions in `done` have been followed, those of the frontier
have not. -/
structure Spread (p : Pattern) (done : List Nat) (seen frontier : PositionSet) : Prop where
  nodup : done.Nodup
  lt_size : ∀ a ∈ seen, a < p.size
  mem_seen : ∀ a, a ∈ seen ↔ a ∈ done ∨ a ∈ frontier
  disjoint : ∀ a ∈ frontier, a ∉ done
  closed : ∀ a ∈ done, ∀ b, p.Adjacent a b → b ∈ seen

/-- A position of the frontier leaves it for good, and what is added to the frontier is new. -/
theorem Spread.step {done : List Nat} {seen frontier : PositionSet} {c : Nat} (h : p.Spread done seen frontier)
    (hc : c ∈ frontier) : p.Spread (c :: done) (seen.union ((p.row c).diff seen))
      ((frontier.diff (.ofList [c])).union ((p.row c).diff seen)) where
  nodup := List.nodup_cons.mpr ⟨h.disjoint c hc, h.nodup⟩
  lt_size := fun a ha => by
    rw [PositionSet.mem_union, PositionSet.mem_diff] at ha
    exact ha.elim (h.lt_size a) fun ha => Adjacent.lt_right ha.1
  mem_seen := fun a => by
    simp only [PositionSet.mem_union, PositionSet.mem_diff, PositionSet.mem_ofList, List.mem_cons, h.mem_seen,
      List.not_mem_nil, or_false]
    by_cases hac : a = c
    · simp [hac, hc]
    · simp [hac, or_assoc]
  disjoint := fun a ha => by
    simp only [PositionSet.mem_union, PositionSet.mem_diff, PositionSet.mem_ofList, List.mem_cons, h.mem_seen,
      List.not_mem_nil, or_false, not_or] at ha ⊢
    rcases ha with ⟨hf, hne⟩ | ⟨-, hdone, hf⟩
    · exact ⟨hne, h.disjoint a hf⟩
    · exact ⟨fun heq => hf (heq ▸ hc), hdone⟩
  closed := fun a ha b hab => by
    rw [PositionSet.mem_union, PositionSet.mem_diff]
    by_cases hb : b ∈ seen
    · exact .inl hb
    · rcases List.mem_cons.mp ha with rfl | ha
      · exact .inr ⟨hab, hb⟩
      · exact .inl (h.closed a ha b hab)

/-- What has been seen is done, once as many positions are done as there are. -/
theorem Spread.mem_done {done : List Nat} {seen frontier : PositionSet} (h : p.Spread done seen frontier)
    (hlen : p.size ≤ done.length) : ∀ a ∈ seen, a ∈ done := by
  have hall : done.Perm (List.range p.size) := by
    refine (List.subperm_of_subset h.nodup fun a ha => ?_).perm_of_length_le
      (Nat.le_trans (Nat.le_of_eq List.length_range) hlen)
    exact List.mem_range.mpr (h.lt_size a ((h.mem_seen a).mpr (.inl ha)))
  exact fun a ha => hall.mem_iff.mpr (List.mem_range.mpr (h.lt_size a ha))

/-- No edge leaves what has been spread to, if there are as many steps as positions that are not done. -/
theorem Spread.closed_spread : ∀ {steps : Nat} {seen frontier : PositionSet} {done : List Nat},
    p.Spread done seen frontier → p.size ≤ done.length + steps →
      ∀ a ∈ p.spread steps seen frontier, ∀ b, p.Adjacent a b → b ∈ p.spread steps seen frontier
  | 0, seen, frontier, done, h, hsteps => fun a ha b hab => h.closed a (h.mem_done hsteps a ha) b hab
  | steps + 1, seen, frontier, done, h, hsteps => by
      rw [spread]
      cases hfirst : frontier.first? with
      | none =>
          intro a ha b hab
          have hdone := ((h.mem_seen a).mp ha).resolve_right (PositionSet.not_mem_of_first? hfirst a)
          exact h.closed a hdone b hab
      | some c =>
          refine (h.step (PositionSet.mem_of_first? hfirst)).closed_spread ?_
          rw [List.length_cons]
          omega

/-- At first position zero has been seen, and nothing is done. -/
theorem Spread.start (p : Pattern) : p.Spread [] (.ofList [0]) (.ofList [0]) where
  nodup := List.nodup_nil
  lt_size a ha := by
    obtain rfl := List.mem_singleton.mp (PositionSet.mem_ofList.mp ha)
    exact p.size_pos
  mem_seen a := by rw [or_iff_right List.not_mem_nil]
  disjoint _ _ := List.not_mem_nil
  closed := nofun

theorem mem_reached_of_joined {a : Nat} (h : p.Joined 0 a) : a ∈ p.reached := by
  induction h with
  | refl => exact mem_spread (PositionSet.mem_ofList.mpr List.mem_cons_self)
  | tail _ hbc ih => exact (Spread.start p).closed_spread (Nat.le_of_eq (Nat.zero_add _).symm) _ ih _ hbc

/-- Any two positions are joined. -/
def Connected (p : Pattern) : Prop := ∀ a b, a < p.size → b < p.size → p.Joined a b

theorem connected_of_isConnected (h : p.isConnected = true) : p.Connected := fun _ _ ha hb =>
  (joined_zero h ha).symm.trans (joined_zero h hb)

theorem isConnected_of_connected (h : p.Connected) : p.isConnected = true := by
  have hmem : ∀ a, a ∈ p.reached.toList ↔ a ∈ List.range p.size := fun a => by
    rw [PositionSet.mem_toList, List.mem_range]
    constructor
    · intro ha
      rcases (reachable_of_mem_reached ha).cases_tail with rfl | ⟨c, -, hc⟩
      · exact p.size_pos
      · exact hc.lt_right
    · exact fun ha => mem_reached_of_joined (h 0 a p.size_pos ha)
  have hperm : p.reached.toList.Perm (List.range p.size) :=
    (List.perm_ext_iff_of_nodup p.reached.nodup_toList List.nodup_range).mpr hmem
  exact decide_eq_true (hperm.length_eq.trans List.length_range)

/-! ## Cutting a pattern -/

theorem exists_crossing_of_joined {S : Nat → Prop} {a b : Nat} (h : p.Joined a b) (ha : S a) (hb : ¬S b) :
    ∃ x y, p.Adjacent x y ∧ S x ∧ ¬S y := by
  induction h with
  | refl => exact (hb ha).elim
  | tail hac hcb ih =>
      rename_i c d
      by_cases hc : S c
      · exact ⟨c, d, hcb, hc, hb⟩
      · exact ih hc

/-- If some positions of a connected pattern are in a set and some are not, an edge leads out of the set. -/
theorem exists_crossing_edge (h : p.isConnected = true) {S : Nat → Prop} {a b : Nat} (ha : S a) (hb : ¬S b)
    (ha' : a < p.size) (hb' : b < p.size) : ∃ x y, p.Adjacent x y ∧ S x ∧ ¬S y :=
  exists_crossing_of_joined ((joined_zero h ha').symm.trans (joined_zero h hb')) ha hb

end PatternCount.Pattern
