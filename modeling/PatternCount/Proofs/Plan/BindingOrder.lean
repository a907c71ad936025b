import PatternCount.Plan.OfPattern
import PatternCount.Proofs.Pattern.Connectivity

/-!
# The order in which positions are bound

`Pattern.bindingOrder` binds every position once (`bindingOrder_perm`). In a connected pattern it never binds a
position without a bound neighbour, save the first (`anchored_bindingOrder`): as long as some positions are bound
and some are not, an edge leads from the ones to the others, and the position that is chosen has at least as
many bound neighbours as the end of that edge.
-/

namespace PatternCount.Pattern

variable {p : Pattern}

/-! ## The next position -/

theorem exists_next? (bound : List Nat) {unbound : List Nat} (h : unbound ≠ []) :
    ∃ a, p.next? bound unbound = some a := by
  cases unbound with
  | nil => exact (h rfl).elim
  | cons c rest =>
      rw [next?]
      split
      · split
        · exact ⟨_, rfl⟩
        · exact ⟨_, rfl⟩
      · exact ⟨_, rfl⟩

/-- The position bound next is one of the unbound, and no other has more bound neighbours. -/
theorem next?_eq_some {bound : List Nat} : ∀ {unbound : List Nat} {a : Nat}, p.next? bound unbound = some a →
    a ∈ unbound ∧ ∀ b ∈ unbound, p.boundNeighbors bound b ≤ p.boundNeighbors bound a
  | [], _, h => by cases h
  | c :: rest, a, h => by
      rw [next?] at h
      cases hrest : p.next? bound rest with
      | none =>
          obtain rfl : rest = [] := by
            by_contra hne
            obtain ⟨b, hb⟩ := exists_next? (p := p) bound hne
            rw [hrest] at hb
            cases hb
          obtain rfl := Option.some.inj h
          exact ⟨List.mem_cons_self, List.forall_mem_singleton.mpr (Nat.le_refl _)⟩
      | some b =>
          obtain ⟨hb, hmost⟩ := next?_eq_some hrest
          rw [hrest] at h
          simp only at h
          split at h
          · next hprecedes =>
              obtain rfl := Option.some.inj h
              refine ⟨List.mem_cons_of_mem _ hb, List.forall_mem_cons.mpr ⟨?_, hmost⟩⟩
              simp only [precedes, Bool.or_eq_true, Bool.and_eq_true, decide_eq_true_eq] at hprecedes
              omega
          · next hnot =>
              obtain rfl := Option.some.inj h
              have hle : p.boundNeighbors bound b ≤ p.boundNeighbors bound c := by
                simp only [precedes, Bool.or_eq_true, Bool.and_eq_true, decide_eq_true_eq] at hnot
                omega
              exact ⟨List.mem_cons_self, List.forall_mem_cons.mpr
                ⟨Nat.le_refl _, fun d hd => Nat.le_trans (hmost d hd) hle⟩⟩

theorem boundNeighbors_pos_iff {bound : List Nat} {a : Nat} :
    0 < p.boundNeighbors bound a ↔ ∃ b ∈ bound, p.Adjacent a b := by
  rw [boundNeighbors, List.length_pos_iff_exists_mem]
  constructor
  · rintro ⟨b, hb⟩
    obtain ⟨-, hb⟩ := List.mem_filter.mp hb
    obtain ⟨hadjacent, hbound⟩ := of_decide_eq_true hb
    exact ⟨b, hbound, hadjacent⟩
  · rintro ⟨b, hbound, hadjacent⟩
    exact ⟨b, List.mem_filter.mpr ⟨List.mem_range.mpr hadjacent.lt_right, decide_eq_true ⟨hadjacent, hbound⟩⟩⟩

/-! ## All positions -/

theorem bindFrom_perm : ∀ {count : Nat} {bound unbound : List Nat}, unbound.length = count →
    (p.bindFrom count bound unbound).Perm unbound
  | 0, _, unbound, h => by
      rw [List.length_eq_zero_iff.mp h]
      exact .refl _
  | count + 1, bound, unbound, h => by
      have hne : unbound ≠ [] := by
        rintro rfl
        cases h
      obtain ⟨a, ha⟩ := exists_next? (p := p) bound hne
      have hmem := (next?_eq_some ha).1
      rw [bindFrom, ha]
      have hlen : (unbound.erase a).length = count := by
        rw [List.length_erase_of_mem hmem, h, Nat.add_sub_cancel]
      exact ((bindFrom_perm hlen).cons a).trans (List.perm_cons_erase hmem).symm

theorem bindingOrder_perm (p : Pattern) : p.bindingOrder.Perm (List.range p.size) :=
  bindFrom_perm List.length_range

theorem length_bindingOrder (p : Pattern) : p.bindingOrder.length = p.size :=
  p.bindingOrder_perm.length_eq.trans List.length_range

theorem nodup_bindingOrder (p : Pattern) : p.bindingOrder.Nodup :=
  p.bindingOrder_perm.nodup_iff.mpr List.nodup_range

theorem mem_bindingOrder {a : Nat} : a ∈ p.bindingOrder ↔ a < p.size :=
  p.bindingOrder_perm.mem_iff.trans List.mem_range

/-! ## Anchors -/

/-- Once a position is bound, those bound after it have a neighbour among the ones bound before them. -/
theorem anchored_bindFrom (hp : p.isConnected = true) : ∀ {count : Nat} {bound unbound : List Nat},
    unbound.Nodup → (∀ a, a < p.size ↔ a ∈ bound ∨ a ∈ unbound) → (∀ a ∈ unbound, a ∉ bound) →
    ∀ {k a : Nat}, (p.bindFrom count bound unbound)[k]? = some a → (bound ≠ [] ∨ 0 < k) →
      ∃ b, p.Adjacent a b ∧ (b ∈ bound ∨ ∃ j < k, (p.bindFrom count bound unbound)[j]? = some b)
  | 0, _, _, _, _, _, _, _, h, _ => by cases h
  | count + 1, bound, unbound, hnodup, hall, hnew, k, a, h, hlater => by
      rw [bindFrom] at h ⊢
      cases hnext : p.next? bound unbound with
      | none =>
          rw [hnext] at h
          cases h
      | some c =>
          obtain ⟨hc, hmost⟩ := next?_eq_some hnext
          rw [hnext] at h
          simp only at h ⊢
          cases k with
          | zero =>
              obtain rfl := Option.some.inj h
              obtain ⟨d, hd⟩ : ∃ d, d ∈ bound :=
                List.exists_mem_of_ne_nil bound (hlater.resolve_right (Nat.lt_irrefl 0))
              obtain ⟨x, y, hxy, hx, hy⟩ := exists_crossing_edge hp (S := (· ∈ bound)) hd (hnew c hc)
                ((hall d).mpr (Or.inl hd)) ((hall c).mpr (Or.inr hc))
              have hy' : y ∈ unbound := ((hall y).mp hxy.lt_right).resolve_left hy
              obtain ⟨b, hb, hadjacent⟩ := boundNeighbors_pos_iff.mp
                (Nat.lt_of_lt_of_le (boundNeighbors_pos_iff.mpr ⟨x, hx, hxy.symm⟩) (hmost y hy'))
              exact ⟨b, hadjacent, Or.inl hb⟩
          | succ k =>
              have hall' : ∀ x, x < p.size ↔ x ∈ c :: bound ∨ x ∈ unbound.erase c := fun x => by
                rw [hall, List.mem_cons]
                by_cases hxc : x = c
                · simp [hxc, hc]
                · simp [hxc, List.mem_erase_of_ne hxc]
              have hnew' : ∀ x ∈ unbound.erase c, x ∉ c :: bound := fun x hx hx' => by
                rcases List.mem_cons.mp hx' with rfl | hx'
                · exact hnodup.not_mem_erase hx
                · exact hnew x (List.mem_of_mem_erase hx) hx'
              obtain ⟨b, hadjacent, hb⟩ := anchored_bindFrom hp (hnodup.erase c) hall' hnew'
                (show (p.bindFrom count (c :: bound) (unbound.erase c))[k]? = some a from h)
                (Or.inl (List.cons_ne_nil _ _))
              refine ⟨b, hadjacent, ?_⟩
              rcases hb with hb | ⟨j, hj, hb⟩
              · rcases List.mem_cons.mp hb with rfl | hb
                · exact Or.inr ⟨0, Nat.succ_pos k, rfl⟩
                · exact Or.inl hb
              · exact Or.inr ⟨j + 1, Nat.succ_lt_succ hj, hb⟩

/-- Every position of a connected pattern but the first to be bound has a neighbour that is bound before it. -/
theorem anchored_bindingOrder (hp : p.isConnected = true) {k a : Nat} (hk : 0 < k)
    (h : p.bindingOrder[k]? = some a) : ∃ j b, j < k ∧ p.bindingOrder[j]? = some b ∧ p.Adjacent b a := by
  obtain ⟨b, hadjacent, hb⟩ := anchored_bindFrom hp List.nodup_range (fun a => by simp)
    (fun _ _ => List.not_mem_nil) h (Or.inr hk)
  obtain ⟨j, hj, hb⟩ := hb.resolve_left List.not_mem_nil
  exact ⟨j, b, hj, hb, hadjacent.symm⟩

end PatternCount.Pattern
