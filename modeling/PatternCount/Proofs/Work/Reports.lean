import PatternCount.Work.Totals
import PatternCount.Proofs.Work.Effort

/-!
# Reports

Reports and calls for work have different parts of the coordinator to themselves: a call leaves the slots and the
number of reports as they are (`Call.Move.reports`), and to calls it makes no difference what these are
(`Crew.Sound.withReports`). A rank whose slot is empty fills it and is then counted (`Report.step_fill`,
`Report.step_count`); once all ranks are counted, the total of the run is the sum of what they have reported
(`tryRunMajor_eq_ok`).
-/

namespace PatternCount

theorem Word.foldlM_checkedAdd : ∀ {xs : List Nat} {total : Nat}, total + xs.sum < Word.size →
    xs.foldlM Word.checkedAdd total = .ok (total + xs.sum)
  | [], _, _ => rfl
  | x :: xs, total, hfits => by
      rw [List.sum_cons, ← Nat.add_assoc] at hfits ⊢
      have hadd : Word.checkedAdd total x = .ok (total + x) := if_pos (Nat.lt_of_le_of_lt (Nat.le_add_right _ _) hfits)
      rw [List.foldlM_cons, hadd]
      exact foldlM_checkedAdd hfits

theorem Word.foldlM_checkedAdd_eq_error : ∀ {xs : List Nat} {total : Nat}, total < Word.size →
    Word.size ≤ total + xs.sum → xs.foldlM Word.checkedAdd total = .error .addOverflow
  | [], _, htotal, hlarge => absurd hlarge (Nat.not_le.mpr htotal)
  | x :: xs, total, _, hlarge => by
      rw [List.foldlM_cons, Word.checkedAdd]
      by_cases hx : total + x < Word.size
      · rw [if_pos hx]
        rw [List.sum_cons, ← Nat.add_assoc] at hlarge
        exact foldlM_checkedAdd_eq_error hx hlarge
      · rw [if_neg hx]
        rfl

/-- A sum is made if it is a word. -/
theorem Word.checkedSum_eq_ok {xs : List Nat} (h : xs.sum < Word.size) : Word.checkedSum xs = .ok xs.sum := by
  rw [← Nat.zero_add xs.sum] at h ⊢
  exact foldlM_checkedAdd h

theorem Word.checkedSum_eq_error {xs : List Nat} (h : Word.size ≤ xs.sum) :
    Word.checkedSum xs = .error .addOverflow :=
  foldlM_checkedAdd_eq_error (by decide) (by rwa [Nat.zero_add])

namespace Coordinator

variable {c : Coordinator} {results : Array (Option Nat)} {reported rank total : Nat}

def withReports (c : Coordinator) (results : Array (Option Nat)) (reported : Nat) : Coordinator :=
  { c with results, reported }

theorem later_withReports : c.Later (c.withReports results reported) := { Later.refl c with }

theorem reports_of_start {n chunkSize queueCapacity stealBatch : Nat} {layout : Layout}
    (h : start n layout chunkSize queueCapacity stealBatch = .ok c) :
    c.results = Array.replicate layout.ranks none ∧ c.reported = 0 ∧ layout.workers < Word.size := by
  obtain ⟨⟨-, hsmall⟩, -, -, rfl⟩ := start_eq_ok h
  exact ⟨rfl, rfl, hsmall⟩

/-- When all ranks have reported, the total of the run is the sum of their totals. -/
theorem tryRunMajor_eq_ok {totals : List Nat} (hreported : c.layout.ranks ≤ c.reported)
    (hresults : c.results.toList = totals.map some) (hfits : totals.sum < Word.size) :
    c.tryRunMajor = .ok (some totals.sum) := by
  have hslots : c.results.toList.map (·.getD 0) = totals := by
    rw [hresults, List.map_map]
    exact List.map_id totals
  have hsum : Inquiry.sumSlots c = .ok totals.sum := by
    rw [Inquiry.sumSlots, hslots]
    exact Word.checkedSum_eq_ok hfits
  simp only [tryRunMajor, Inquiry.step, if_pos hreported, hsum, Inquiry.answer]

end Coordinator

namespace Report

variable {c : Coordinator} {rank total : Nat}

theorem step_fill (h : c.results[rank]? = some none) :
    (fill rank total).step c = (count, c.withReports (c.results.setIfInBounds rank (some total)) c.reported) := by
  simp only [step, fillSlot, h, Coordinator.withReports]

theorem step_count (h : c.reported + 1 < Word.size) :
    count.step c = (finished, c.withReports c.results (c.reported + 1)) := by
  simp only [step, Word.wrappingAdd, Nat.mod_eq_of_lt h, Coordinator.withReports]

end Report

theorem Coordinator.reportResult_eq_ok {c : Coordinator} {rank total : Nat} (hslot : c.results[rank]? = some none)
    (hlt : c.reported + 1 < Word.size) : c.reportResult rank total
      = (.ok (), c.withReports (c.results.setIfInBounds rank (some total)) (c.reported + 1)) := by
  have hcount := Report.step_count (c := c.withReports (c.results.setIfInBounds rank (some total)) c.reported) hlt
  rw [reportResult, Report.step_fill hslot]
  simp only [hcount]
  rfl

theorem Call.Move.reports {g : Nat} {c c' : Coordinator} {call call' : Call} (h : Move g c call call' c') :
    c'.results = c.results ∧ c'.reported = c.reported := by
  cases h <;> exact ⟨rfl, rfl⟩

namespace Crew

variable {crew : Crew} {reported : Nat} {results : Array (Option Nat)}

/-- A crew stays sound whatever is reported. -/
theorem Sound.withReports (h : crew.Sound) :
    (Crew.mk (crew.shared.withReports results reported) crew.workers).Sound where
  shared := h.shared.later Coordinator.later_withReports
  length := h.length
  worker := fun g w hw => (h.worker g w hw).later Coordinator.later_withReports rfl
  watched := h.watched
  cover := h.cover
  produced := h.produced
  claimed := h.claimed

theorem Filled.withReports (hf : crew.Filled) :
    (Crew.mk (crew.shared.withReports results reported) crew.workers).Filled :=
  ⟨hf.worker, hf.waiting⟩

end Crew

end PatternCount
