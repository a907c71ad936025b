import PatternCount.Proofs.Outcome
import PatternCount.Proofs.Pattern.Connectivity

/-!
# Spreading until the frontier is empty

`Pattern.spread` is given a number of steps. Here the same is written as a loop that has no such limit:
`p.Passes n seen frontier result` says that the loop ends after `n` passes, because the frontier is empty then. Each
pass works on the bits of words (`Pattern.passAt`): its row is found by index, the lowest bit of the frontier is taken
out by a subtraction, and what has not been seen is the complement in a word of all positions that a pattern can have.

No pass faults, as the loop meets only positions of the pattern, and there are no more passes than positions, as each of
them leaves the frontier once and for all (`Spread.passes`). What the loop leaves behind are the positions that can be
reached from position zero, so that `Pattern.isConnected` holds just if all of them can (`isConnected_iff_joined`).
-/

namespace PatternCount.Pattern

/-! ## The loop -/

/-- One pass: position `a` leaves the frontier, whose lowest it is, and those adjacent to it that have not been seen
enter it. -/
def passAt (p : Pattern) (a : Nat) (seen frontier : PositionSet) : Except Fault (PositionSet × PositionSet) := do
  let row ← Fault.index p.rows.toArray a
  let less ← Word.checkedSub frontier.bits 1
  let fresh := row.inter ((PositionSet.below maxPatternSize).diff seen)
  return (seen.union fresh, (PositionSet.mk (frontier.bits &&& less)).union fresh)

/-- The loop makes so many passes and ends with what it has seen. -/
inductive Passes (p : Pattern) : (passes : Nat) → (seen frontier result : PositionSet) → Prop
  | done {seen frontier : PositionSet} (hempty : frontier.bits = 0) : Passes p 0 seen frontier seen
  | pass {n a : Nat} {seen frontier seen' frontier' result : PositionSet} (hfirst : frontier.first? = some a)
      (hpass : p.passAt a seen frontier = .ok (seen', frontier')) (hrest : Passes p n seen' frontier' result) :
      Passes p (n + 1) seen frontier result

variable {p : Pattern} {seen frontier result : PositionSet}

theorem bits_ne_zero_of_first? {a : Nat} (h : frontier.first? = some a) : frontier.bits ≠ 0 := fun hzero => by
  have hmem := PositionSet.mem_def.mp (PositionSet.mem_of_first? h)
  rw [hzero, Nat.zero_testBit] at hmem
  cases hmem

/-- The loop has one end. -/
theorem Passes.unique {n : Nat} (h : p.Passes n seen frontier result) {n' : Nat} {result' : PositionSet}
    (h' : p.Passes n' seen frontier result') : n' = n ∧ result' = result := by
  induction h generalizing n' result' with
  | done hempty =>
      cases h' with
      | done => exact ⟨rfl, rfl⟩
      | pass hfirst => exact (bits_ne_zero_of_first? hfirst hempty).elim
  | pass hfirst hpass _ ih =>
      cases h' with
      | done hempty => exact (bits_ne_zero_of_first? hfirst hempty).elim
      | pass hfirst' hpass' hrest' =>
          obtain rfl := Option.some.inj (hfirst.symm.trans hfirst')
          obtain ⟨rfl, rfl⟩ := Prod.mk.inj (Except.ok.inj (hpass.symm.trans hpass'))
          obtain ⟨rfl, rfl⟩ := ih hrest'
          exact ⟨rfl, rfl⟩

/-! ## It comes to its end -/

/-- A pass does on words what a step of spreading does on sets. -/
theorem passAt_eq_ok {a : Nat} (ha : a < maxPatternSize) (hfirst : frontier.first? = some a) :
    p.passAt a seen frontier = .ok (seen.union ((p.row a).diff seen),
      (frontier.diff (.ofList [a])).union ((p.row a).diff seen)) := by
  have hindex : Fault.index p.rows.toArray a = .ok (p.row a) := by
    rw [Fault.index, row, rowOf, Vector.getElem?_toArray, Vector.getElem?_eq_getElem ha]
    rfl
  have hsub : Word.checkedSub frontier.bits 1 = .ok (frontier.bits - 1) :=
    if_pos (Nat.pos_of_ne_zero (bits_ne_zero_of_first? hfirst))
  have hfresh : (p.row a).inter ((PositionSet.below maxPatternSize).diff seen) = (p.row a).diff seen := by
    refine PositionSet.ext_mem fun b => ?_
    rw [PositionSet.mem_inter, PositionSet.mem_diff, PositionSet.mem_diff, PositionSet.mem_below]
    exact and_congr_right fun hb => and_iff_right (Nat.lt_of_lt_of_le (p.lt_size hb) p.size_le)
  have hless : PositionSet.mk (frontier.bits &&& (frontier.bits - 1)) = frontier.diff (.ofList [a]) := by
    refine PositionSet.ext_mem fun b => ?_
    rw [PositionSet.mem_and_sub_one hfirst, PositionSet.mem_diff, PositionSet.mem_ofList, List.mem_singleton]
  rw [passAt, hindex, hsub, ← hless, ← hfresh]
  rfl

/-- The loop ends where spreading does, and takes no more passes than there are positions that are not done. -/
theorem Spread.passes : ∀ {steps : Nat} {seen frontier : PositionSet} {done : List Nat},
    p.Spread done seen frontier → p.size ≤ done.length + steps →
      ∃ n ≤ steps, p.Passes n seen frontier (p.spread steps seen frontier)
  | 0, seen, frontier, done, h, hsteps => by
      have hempty : frontier = .empty := PositionSet.ext_mem fun a =>
        iff_of_false (fun ha => h.disjoint a ha (h.mem_done hsteps a ((h.mem_seen a).mpr (.inr ha))))
          (PositionSet.not_mem_empty a)
      exact ⟨0, Nat.le_refl 0, .done (by rw [hempty]; rfl)⟩
  | steps + 1, seen, frontier, done, h, hsteps => by
      rw [spread]
      cases hfirst : frontier.first? with
      | none =>
          have hempty : frontier = .empty := PositionSet.ext_mem fun a =>
            iff_of_false (PositionSet.not_mem_of_first? hfirst a) (PositionSet.not_mem_empty a)
          exact ⟨0, Nat.zero_le _, .done (by rw [hempty]; rfl)⟩
      | some a =>
          have ha := PositionSet.mem_of_first? hfirst
          have hlt : a < maxPatternSize :=
            Nat.lt_of_lt_of_le (h.lt_size a ((h.mem_seen a).mpr (.inr ha))) p.size_le
          have hleft : p.size ≤ (a :: done).length + steps := by
            rw [List.length_cons]
            omega
          obtain ⟨n, hn, hrest⟩ := (h.step ha).passes hleft
          exact ⟨n + 1, Nat.succ_le_succ hn, .pass hfirst (passAt_eq_ok hlt hfirst) hrest⟩

/-- Starting from position zero, the loop ends after at most as many passes as there are positions. The pattern is
connected just if it has seen as many positions as there are, and that is so just if every position can be reached from
position zero along edges. -/
theorem isConnected_iff_joined (p : Pattern) :
    ∃ n result, n ≤ p.size ∧ p.Passes n ⟨1⟩ ⟨1⟩ result ∧
      (∀ n' result', p.Passes n' ⟨1⟩ ⟨1⟩ result' → n' = n ∧ result' = result) ∧
      (p.isConnected = true ↔ result.card = p.size) ∧
      (p.isConnected = true ↔ ∀ a < p.size, p.Joined 0 a) := by
  obtain ⟨n, hn, h⟩ := (Spread.start p).passes (Nat.le_of_eq (Nat.zero_add _).symm)
  refine ⟨n, p.reached, hn, h, fun n' result' h' => h.unique h', decide_eq_true_iff, ?_⟩
  constructor
  · exact fun hp a ha => joined_zero hp ha
  · exact fun hall => isConnected_of_connected fun a b ha hb => (hall a ha).symm.trans (hall b hb)

end PatternCount.Pattern
