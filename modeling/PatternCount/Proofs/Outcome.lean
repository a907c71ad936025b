import PatternCount.Fault

/-!
# Computations that may fail

A computation in `Except` that is made of steps succeeds exactly if each of its steps does. The lemmas here
take such a computation apart into its steps (`bind_eq_ok_iff`), or go through a list of them
(`mapM_eq_ok`). A look at an index succeeds below the size (`Fault.index_eq_ok`), and a slice is cut if it
lies within the array (`Fault.slice_eq_ok_iff`).
-/

namespace PatternCount

variable {ε α β : Type}

/-- Two steps succeed if the first does and the second does with what the first has made. -/
theorem bind_eq_ok_iff {x : Except ε α} {f : α → Except ε β} {b : β} :
    x >>= f = .ok b ↔ ∃ a, x = .ok a ∧ f a = .ok b := by
  cases x with
  | error e =>
      constructor
      · intro h
        cases h
      · rintro ⟨a, h, -⟩
        cases h
  | ok a =>
      constructor
      · intro h
        exact ⟨a, rfl, h⟩
      · rintro ⟨a', h, hb⟩
        obtain rfl := Except.ok.inj h
        exact hb

theorem check_bind_eq_ok_iff {x : Except ε Unit} {f : Unit → Except ε β} {b : β} :
    x >>= f = .ok b ↔ x = .ok () ∧ f () = .ok b := by
  rw [bind_eq_ok_iff]
  exact ⟨fun ⟨_, h⟩ => h, fun h => ⟨(), h⟩⟩

theorem mapError_eq_ok_iff {ε' : Type} {g : ε → ε'} {x : Except ε α} {a : α} :
    x.mapError g = .ok a ↔ x = .ok a := by
  cases x with
  | error e => exact ⟨nofun, nofun⟩
  | ok b =>
      constructor
      · intro h
        obtain rfl := Except.ok.inj h
        rfl
      · intro h
        obtain rfl := Except.ok.inj h
        rfl

/-- If a step succeeds for every element of a list, the list of its results is made. -/
theorem mapM_eq_ok {f : α → Except ε β} {g : α → β} {xs : List α} (h : ∀ x ∈ xs, f x = .ok (g x)) :
    xs.mapM f = .ok (xs.map g) := by
  induction xs with
  | nil => rfl
  | cons x xs ih =>
      rw [List.mapM_cons, h x List.mem_cons_self]
      show (xs.mapM f >>= fun ys => pure (g x :: ys)) = _
      rw [ih fun y hy => h y (List.mem_cons_of_mem _ hy)]
      rfl

theorem Fault.index_eq_ok {items : Array α} {i : Nat} (h : i < items.size) : Fault.index items i = .ok items[i] := by
  rw [Fault.index, Array.getElem?_eq_getElem h]

theorem Fault.slice_eq_ok_iff {items slice : Array α} {start stop : Nat} :
    Fault.slice items start stop = .ok slice ↔
      start ≤ stop ∧ stop ≤ items.size ∧ items.extract start stop = slice := by
  unfold Fault.slice
  split
  · exact iff_of_false nofun fun h => by omega
  · split
    · exact iff_of_false nofun fun h => by omega
    · exact ⟨fun h => ⟨by omega, by omega, Except.ok.inj h⟩, fun h => congrArg Except.ok h.2.2⟩

end PatternCount
