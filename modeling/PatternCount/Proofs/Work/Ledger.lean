import PatternCount.Proofs.Work.Slots

/-!
# Reports and questions side by side

A `Ledger` is a coordinator with calls in progress that report the total of a rank or ask for the total of the run,
each step of which may come between any two steps of the others. It remembers which totals have been written, in order.

A report first writes and is counted later, so the slots are never behind the counter: as many are filled as reports
have entered their total, and as many are counted as have come to their end (`Ledger.Sound`). Hence all slots are filled
where a question finds all ranks counted, nothing is written from then on, and its answer is the sum of all totals.
A rank whose slot is filled cannot report again, so no slot is written twice. All of this is `Ledger.run_reports`.
-/

namespace PatternCount

/-! ## The machine -/

structure Ledger where
  shared : Coordinator
  reports : List Report
  inquiries : List Inquiry
  /-- Ranks and totals, one entry for each time that a slot has been written. -/
  written : List (Nat × Nat)

namespace Ledger

/-- Whose turn it is. -/
inductive Turn where
  | report (i : Nat)
  | inquire (i : Nat)

/-- The calls that report these ranks and totals and so many questions, none of which has begun. -/
def start (c : Coordinator) (calls : List (Nat × Nat)) (inquiries : Nat) : Ledger :=
  ⟨c, calls.map fun (rank, total) => .fill rank total, List.replicate inquiries .look, []⟩

def step (s : Ledger) : Turn → Ledger
  | .report i =>
      match s.reports[i]? with
      | some r =>
          let (r', c) := r.step s.shared
          { s with shared := c, reports := s.reports.set i r', written := s.written ++ r.writes s.shared }
      | none => s
  | .inquire i =>
      match s.inquiries[i]? with
      | some q => { s with inquiries := s.inquiries.set i (q.step s.shared) }
      | none => s

def run (s : Ledger) (schedule : List Turn) : Ledger := schedule.foldl step s

end Ledger

/-! ## Runs -/

namespace Ledger

variable {ranks : Nat} {calls : List (Nat × Nat)} {s : Ledger} {i rank total : Nat} {r r' : Report}

/-- Each call stands where it can stand, no two have entered a total for one rank, the counters agree with the calls,
and what is in the slots is what has been written, each slot once. -/
structure Sound (ranks : Nat) (calls : List (Nat × Nat)) (s : Ledger) : Prop where
  small : ranks < Word.size
  ranks_eq : s.shared.layout.ranks = ranks
  size : s.shared.results.size = ranks
  report : ∀ {i : Nat} {r}, s.reports[i]? = some r →
    ∃ rank total, calls[i]? = some (rank, total) ∧ r.Stands rank total s.shared
  distinct : ∀ {i j rank total total' : Nat} {r r'}, i ≠ j → s.reports[i]? = some r → s.reports[j]? = some r' →
    r.isEntered = true → r'.isEntered = true → calls[i]? = some (rank, total) → calls[j]? ≠ some (rank, total')
  filled : s.shared.filled = s.reports.countP Report.isEntered
  reported : s.shared.reported = s.reports.countP (· = .finished)
  written : ∀ {rank total : Nat}, (rank, total) ∈ s.written ↔ s.shared.results[rank]? = some (some total)
  nodup : (s.written.map Prod.fst).Nodup
  mem_calls : ∀ w ∈ s.written, w ∈ calls
  sum : s.shared.slotSum = (s.written.map Prod.snd).sum
  inquiry : ∀ q ∈ s.inquiries, q.Knows s.shared

theorem step_report (hr : s.reports[i]? = some r) : s.step (.report i) =
    ⟨(r.step s.shared).2, s.reports.set i (r.step s.shared).1, s.inquiries, s.written ++ r.writes s.shared⟩ := by
  simp only [step, hr]

theorem Sound.reported_le (h : s.Sound ranks calls) : s.shared.reported ≤ s.shared.filled := by
  rw [h.reported, h.filled]
  refine List.countP_mono_left fun r _ hr => ?_
  rw [decide_eq_true_eq.mp hr]
  rfl

/-- Where a slot is empty, not all ranks are counted. -/
theorem Sound.reported_lt (h : s.Sound ranks calls) (hslot : s.shared.results[rank]? = some none) :
    s.shared.reported < ranks := by
  refine Nat.lt_of_not_le fun hle => ?_
  have hfilled : s.shared.results.size ≤ s.shared.filled := h.size ▸ Nat.le_trans hle h.reported_le
  exact absurd (Coordinator.isSome_of_filled hfilled hslot) (by decide)

/-- A report that has entered its total and is not counted leaves room in the counter. -/
theorem Sound.reported_succ_lt (h : s.Sound ranks calls) (hr : s.reports[i]? = some .count) :
    s.shared.reported + 1 < Word.size := by
  have hmore : (s.reports.set i .finished).countP (· = .finished) ≤ (s.reports.set i .finished).countP
      Report.isEntered := List.countP_mono_left fun r _ hr => by rw [decide_eq_true_eq.mp hr]; rfl
  have hfinished := countP_set_add (p := (· = Report.finished)) (b := .finished) hr
  have hentered := countP_set_add (p := Report.isEntered) (b := .finished) hr
  have hfilled := Coordinator.filled_le (c := s.shared)
  have hsmall := h.small
  rw [h.size, h.filled] at hfilled
  rw [h.reported]
  simp [Report.isEntered] at hfinished hentered
  omega

/-- The reports after one of them has moved on. -/
theorem Sound.report_set (h : s.Sound ranks calls) (hcall : calls[i]? = some (rank, total)) {c : Coordinator}
    (hstands : r'.Stands rank total c) (hsize : c.results.size = s.shared.results.size)
    (hkept : ∀ (k : Nat) (t : Nat), s.shared.results[k]? = some (some t) → c.results[k]? = some (some t))
    {j : Nat} {r₀ : Report} (hj : (s.reports.set i r')[j]? = some r₀) :
    ∃ rank total, calls[j]? = some (rank, total) ∧ r₀.Stands rank total c := by
  rcases getElem?_set_cases hj with ⟨rfl, rfl⟩ | ⟨-, hj⟩
  · exact ⟨rank, total, hcall, hstands⟩
  · obtain ⟨rank₀, total₀, hcall₀, hstands₀⟩ := h.report hj
    exact ⟨rank₀, total₀, hcall₀, hstands₀.mono hsize hkept⟩

/-- A report for a rank whose slot is empty is the first that enters a total for it. -/
theorem Sound.distinct_enter (h : s.Sound ranks calls) (hcall : calls[i]? = some (rank, total))
    (hslot : s.shared.results[rank]? = some none) {j k rank' total₁ total₂ : Nat} {r₁ r₂ : Report} (hjk : j ≠ k)
    (hj : (s.reports.set i .count)[j]? = some r₁) (hk : (s.reports.set i .count)[k]? = some r₂)
    (hentered₁ : r₁.isEntered = true) (hentered₂ : r₂.isEntered = true) (hcall₁ : calls[j]? = some (rank', total₁)) :
    calls[k]? ≠ some (rank', total₂) := by
  -- Another report that has entered a total for this rank would have filled the slot.
  have hfree : ∀ {j total' : Nat} {r'}, s.reports[j]? = some r' → r'.isEntered = true →
      calls[j]? ≠ some (rank, total') := by
    intro j total' r' hj hentered hcall'
    obtain ⟨rank₀, total₀, hcall₀, hstands⟩ := h.report hj
    obtain ⟨rfl, rfl⟩ := Prod.mk.inj (Option.some.inj (hcall₀.symm.trans hcall'))
    rw [hstands.slot hentered] at hslot
    cases hslot
  intro hcall₂
  rcases getElem?_set_cases hj with ⟨rfl, rfl⟩ | ⟨-, hj⟩
  · obtain ⟨rfl, rfl⟩ := Prod.mk.inj (Option.some.inj (hcall.symm.trans hcall₁))
    rcases getElem?_set_cases hk with ⟨rfl, -⟩ | ⟨-, hk⟩
    · exact hjk rfl
    · exact hfree hk hentered₂ hcall₂
  · rcases getElem?_set_cases hk with ⟨rfl, rfl⟩ | ⟨-, hk⟩
    · obtain ⟨rfl, rfl⟩ := Prod.mk.inj (Option.some.inj (hcall.symm.trans hcall₂))
      exact hfree hj hentered₁ hcall₁
    · exact h.distinct hjk hj hk hentered₁ hentered₂ hcall₁ hcall₂

/-- A total may be entered in an empty slot. -/
theorem Sound.enter (h : s.Sound ranks calls) (hr : s.reports[i]? = some (.fill rank total))
    (hcall : calls[i]? = some (rank, total)) (hslot : s.shared.results[rank]? = some none) :
    (Ledger.mk (s.shared.enter rank total) (s.reports.set i .count) s.inquiries
      (s.written ++ [(rank, total)])).Sound ranks calls where
  small := h.small
  ranks_eq := h.ranks_eq
  size := Coordinator.size_enter.trans h.size
  report := h.report_set hcall (.counting ((Coordinator.slot_enter hslot _ _).mpr (.inr ⟨rfl, rfl⟩)))
    Coordinator.size_enter fun k t hk => (Coordinator.slot_enter hslot k t).mpr (.inl hk)
  distinct := h.distinct_enter hcall hslot
  filled := by
    have hreports := countP_set_add (p := Report.isEntered) (b := .count) hr
    rw [Coordinator.filled_enter hslot, h.filled]
    exact hreports.symm
  reported := by
    have hreports := countP_set_add (p := (· = Report.finished)) (b := .count) hr
    exact h.reported.trans hreports.symm
  written := fun {k t} => by
    rw [List.mem_append, List.mem_singleton, h.written, Coordinator.slot_enter hslot, Prod.mk.injEq]
  nodup := by
    rw [List.map_append, List.nodup_append]
    refine ⟨h.nodup, List.nodup_singleton _, ?_⟩
    rintro k hk _ hmem rfl
    obtain ⟨⟨k', t⟩, hmem', rfl⟩ := List.mem_map.mp hk
    obtain rfl := List.mem_singleton.mp hmem
    rw [h.written, hslot] at hmem'
    cases hmem'
  mem_calls := List.forall_mem_append.mpr
    ⟨h.mem_calls, List.forall_mem_singleton.mpr (List.mem_of_getElem? hcall)⟩
  sum := by
    rw [Coordinator.slotSum_enter hslot, h.sum, List.map_append, List.sum_append]
    rfl
  inquiry := fun q hq => (h.inquiry q hq).of_lt (h.ranks_eq ▸ h.reported_lt hslot)

/-- A report may move on while the slots stay as they are, if the counter agrees. -/
theorem Sound.advance (h : s.Sound ranks calls) (hr : s.reports[i]? = some r) (hcall : calls[i]? = some (rank, total))
    (hstands : r'.Stands rank total s.shared) (hentered : r'.isEntered = r.isEntered) {reported : Nat}
    (hcount : reported = (s.reports.set i r').countP (· = .finished)) (hle : s.shared.reported ≤ reported) :
    (Ledger.mk (s.shared.withReports s.shared.results reported) (s.reports.set i r') s.inquiries
      s.written).Sound ranks calls where
  small := h.small
  ranks_eq := h.ranks_eq
  size := h.size
  report := fun hj => h.report_set (c := s.shared.withReports s.shared.results reported) hcall
    (hstands.mono rfl fun _ _ hk => hk) rfl (fun _ _ hk => hk) hj
  distinct := fun {j k rank' _ total'} {r₁ r₂} hjk hj hk h₁ h₂ => by
    have hbefore : ∀ {j : Nat} {r₁}, (s.reports.set i r')[j]? = some r₁ → r₁.isEntered = true →
        ∃ r₀, s.reports[j]? = some r₀ ∧ r₀.isEntered = true := by
      intro j r₁ hj h₁
      rcases getElem?_set_cases hj with ⟨rfl, rfl⟩ | ⟨-, hj⟩
      · exact ⟨r, hr, hentered ▸ h₁⟩
      · exact ⟨r₁, hj, h₁⟩
    obtain ⟨r₃, hj, h₃⟩ := hbefore hj h₁
    obtain ⟨r₄, hk, h₄⟩ := hbefore hk h₂
    exact h.distinct hjk hj hk h₃ h₄
  filled := by
    have hreports := countP_set_add (p := Report.isEntered) (b := r') hr
    rw [hentered] at hreports
    exact h.filled.trans (Nat.add_right_cancel hreports).symm
  reported := hcount
  written := h.written
  nodup := h.nodup
  mem_calls := h.mem_calls
  sum := h.sum
  inquiry := fun q hq => (h.inquiry q hq).mono rfl hle rfl

/-- A turn keeps the ledger sound. -/
theorem Sound.step (h : s.Sound ranks calls) (turn : Turn) : (s.step turn).Sound ranks calls := by
  cases turn with
  | inquire i =>
      cases hq : s.inquiries[i]? with
      | none => rwa [Ledger.step, hq]
      | some q =>
          rw [Ledger.step, hq]
          refine { h with inquiry := fun q' hq' => ?_ }
          rcases List.mem_or_eq_of_mem_set hq' with hq' | rfl
          · exact h.inquiry q' hq'
          · exact (h.inquiry q (List.mem_of_getElem? hq)).step
  | report i =>
      cases hr : s.reports[i]? with
      | none => rwa [Ledger.step, hr]
      | some r =>
          obtain ⟨rank, total, hcall, hstands⟩ := h.report hr
          have hcount : r = .count → s.shared.reported + 1 < Word.size := fun heq =>
            h.reported_succ_lt (heq ▸ hr)
          rw [step_report hr]
          rcases hstands.step_cases hcount with ⟨rfl, hslot, hwrites, hstep⟩ | ⟨rfl, hwrites, hstep⟩
            | ⟨r', hentered, hfinished, hstands', hwrites, hstep⟩
          · rw [hwrites, hstep]
            exact h.enter hr hcall hslot
          · rw [hwrites, hstep, List.append_nil]
            have hreports := countP_set_add (p := (· = Report.finished)) (b := .finished) hr
            refine h.advance hr hcall (.counted (hstands.slot rfl)) rfl ?_ (Nat.le_succ _)
            rw [h.reported]
            exact hreports.symm
          · rw [hwrites, hstep, List.append_nil]
            have hreports := countP_set_add (p := (· = Report.finished)) (b := r') hr
            simp only [decide_eq_true_eq, hfinished] at hreports
            exact h.advance hr hcall hstands' hentered (h.reported.trans (Nat.add_right_cancel hreports).symm)
              (Nat.le_refl _)

theorem Sound.run (schedule : List Turn) {s : Ledger} (h : s.Sound ranks calls) :
    (s.run schedule).Sound ranks calls := by
  induction schedule generalizing s with
  | nil => exact h
  | cons turn rest ih => exact ih (h.step turn)

theorem sound_start {c : Coordinator} {n chunkSize queueCapacity stealBatch : Nat} {layout : Layout}
    (hc : Coordinator.start n layout chunkSize queueCapacity stealBatch = .ok c) (calls : List (Nat × Nat))
    (inquiries : Nat) : (start c calls inquiries).Sound layout.ranks calls := by
  obtain ⟨⟨hworkers, hsmall⟩, -⟩ := Coordinator.start_eq_ok hc
  obtain ⟨-, hlayout, -⟩ := Coordinator.fields_of_start hc
  obtain ⟨hresults, hreported, -⟩ := Coordinator.reports_of_start hc
  have hcall : ∀ {i : Nat} {r : Report}, (start c calls inquiries).reports[i]? = some r →
      ∃ rank total, calls[i]? = some (rank, total) ∧ r = .fill rank total := by
    intro i r hr
    rw [start, List.getElem?_map] at hr
    obtain ⟨⟨rank, total⟩, hcall, rfl⟩ := Option.map_eq_some_iff.mp hr
    exact ⟨rank, total, hcall, rfl⟩
  have hnone : ∀ p : Report → Bool, (∀ rank total, p (.fill rank total) = false) →
      (start c calls inquiries).reports.countP p = 0 := by
    intro p hp
    rw [List.countP_eq_zero]
    intro r hr
    obtain ⟨⟨rank, total⟩, -, rfl⟩ := List.mem_map.mp hr
    rw [hp]
    decide
  refine ⟨?_, congrArg Layout.ranks hlayout, ?_, fun hr => ?_, fun _ hr _ hentered => ?_, ?_, ?_,
    fun {rank total} => ?_, List.nodup_nil, nofun, ?_, fun q hq => ?_⟩
  · exact Nat.lt_of_le_of_lt (Nat.le_mul_of_pos_right layout.ranks (Nat.pos_of_mul_pos_left hworkers)) hsmall
  · rw [start, hresults, Array.size_replicate]
  · obtain ⟨rank, total, hcall, rfl⟩ := hcall hr
    exact ⟨rank, total, hcall, .waiting⟩
  · obtain ⟨rank, total, -, rfl⟩ := hcall hr
    cases hentered
  · rw [hnone Report.isEntered fun _ _ => rfl, start, Coordinator.filled, hresults, Array.toList_replicate,
      List.countP_replicate]
    rfl
  · exact hreported.trans (hnone _ fun _ _ => rfl).symm
  · refine ⟨fun hmem => absurd hmem List.not_mem_nil, fun h => ?_⟩
    rw [start, hresults, Array.getElem?_replicate] at h
    split at h <;> cases h
  · rw [start, Coordinator.slotSum, hresults, Array.toList_replicate, List.map_replicate, List.sum_replicate]
    exact Nat.mul_zero _
  · rw [List.eq_of_mem_replicate hq]
    trivial

/-! ## What reports and questions come to -/

/-- Once all slots are filled, one total has been written for each rank. -/
theorem Sound.perm_range (h : s.Sound ranks calls) (hfilled : ranks ≤ s.shared.filled) :
    (s.written.map Prod.fst).Perm (List.range ranks) := by
  refine (List.perm_ext_iff_of_nodup h.nodup List.nodup_range).mpr fun rank => ?_
  rw [List.mem_map, List.mem_range, ← h.size]
  constructor
  · rintro ⟨⟨_, total⟩, hmem, rfl⟩
    exact (Array.getElem?_eq_some_iff.mp (h.written.mp hmem)).1
  · intro hrank
    have hslot : s.shared.results[rank]? = some s.shared.results[rank] := Array.getElem?_eq_getElem hrank
    obtain ⟨total, htotal⟩ := Option.isSome_iff_exists.mp
      (Coordinator.isSome_of_filled (h.size.trans_le hfilled) hslot)
    exact ⟨(rank, total), h.written.mpr (hslot.trans (congrArg some htotal)), rfl⟩

/-- Another report for a rank whose total is entered fails, and leaves everything else as it is. -/
theorem Sound.step_again (h : s.Sound ranks calls) {j total' : Nat} (hij : i ≠ j)
    (hi : calls[i]? = some (rank, total)) (hj : calls[j]? = some (rank, total')) (hr : s.reports[i]? = some r)
    (hentered : r.isEntered = true) (hr' : s.reports[j]? = some r') :
    s.step (.report j) = { s with reports := s.reports.set j (.failed (.reportedTwice rank)) } := by
  obtain ⟨_, _, hcall, hstands⟩ := h.report hr
  obtain ⟨rfl, rfl⟩ := Prod.mk.inj (Option.some.inj (hcall.symm.trans hi))
  obtain ⟨_, _, hcall', hstands'⟩ := h.report hr'
  obtain ⟨rfl, rfl⟩ := Prod.mk.inj (Option.some.inj (hcall'.symm.trans hj))
  have hslot := hstands.slot hentered
  rw [step_report hr']
  cases hstands' with
  | waiting =>
      rw [Report.step_fill_again hslot, show Report.writes _ s.shared = [] by
        simp [Report.writes, Report.fillSlot, hslot, Except.isOk, Except.toBool], List.append_nil]
  | counting => exact absurd hj (h.distinct hij hr hr' hentered rfl hi)
  | counted => exact absurd hj (h.distinct hij hr hr' hentered rfl hi)
  | refused => simp [Report.step, Report.writes]
  | misplaced hnone =>
      rw [hslot] at hnone
      cases hnone

/-- If a report of every rank has come to its end, all ranks are counted. -/
theorem Sound.ranks_le_reported (h : s.Sound ranks calls)
    (hall : ∀ rank < ranks, ∃ (i : Nat) (total : Nat), calls[i]? = some (rank, total) ∧
      s.reports[i]? = some .finished) : ranks ≤ s.shared.reported := by
  -- A report that has entered a total is the one of its rank that has come to its end.
  have hfinished : s.shared.filled = s.shared.reported := by
    rw [h.filled, h.reported]
    refine List.countP_congr fun r hr => ⟨fun hentered => ?_, fun hfinished => ?_⟩
    · obtain ⟨i, hi⟩ := List.getElem?_of_mem hr
      obtain ⟨rank, total, hcall, hstands⟩ := h.report hi
      obtain ⟨hrank, -⟩ := Array.getElem?_eq_some_iff.mp (hstands.slot hentered)
      obtain ⟨j, total', hcall', hj⟩ := hall rank (h.size ▸ hrank)
      by_cases hij : i = j
      · subst hij
        rw [Option.some.inj (hi.symm.trans hj)]
        rfl
      · exact absurd hcall' (h.distinct hij hi hj hentered rfl hcall)
    · rw [decide_eq_true_eq.mp hfinished]
      rfl
  have hslots : s.shared.results.toList.countP Option.isSome = s.shared.results.toList.length := by
    rw [List.countP_eq_length]
    intro slot hslot
    obtain ⟨rank, hrank⟩ := List.getElem?_of_mem hslot
    rw [Array.getElem?_toList] at hrank
    obtain ⟨hlt, -⟩ := Array.getElem?_eq_some_iff.mp hrank
    obtain ⟨i, total, hcall, hi⟩ := hall rank (h.size ▸ hlt)
    obtain ⟨_, _, hcall', hstands⟩ := h.report hi
    obtain ⟨rfl, rfl⟩ := Prod.mk.inj (Option.some.inj (hcall'.symm.trans hcall))
    rw [Option.some.inj (hrank.symm.trans (hstands.slot rfl))]
    rfl
  rw [← hfinished, Coordinator.filled, hslots, Array.length_toList, h.size]

/-- However the steps of reports and questions are interleaved, no more ranks are counted than slots are filled. No slot
is written twice, and each holds what has been written into it, a total that was reported. Once the total of a rank is
in its slot, every other report for that rank fails and changes nothing. An answer is the sum of the totals of all
ranks or none at all, no question fails unless that sum is too large, and once a report of each rank has come to its
end there is an answer. -/
theorem run_reports {c : Coordinator} {n chunkSize queueCapacity stealBatch : Nat} {layout : Layout}
    (hc : Coordinator.start n layout chunkSize queueCapacity stealBatch = .ok c) (calls : List (Nat × Nat))
    (inquiries : Nat) (schedule : List Turn) :
    let s := (start c calls inquiries).run schedule
    let sum := (s.written.map Prod.snd).sum
    s.shared.reported ≤ s.shared.filled ∧
    ((s.written.map Prod.fst).Nodup ∧ (∀ w ∈ s.written, w ∈ calls) ∧
      ∀ rank total : Nat, (rank, total) ∈ s.written ↔ s.shared.results[rank]? = some (some total)) ∧
    (∀ (i j rank total total' : Nat) r r', i ≠ j → calls[i]? = some (rank, total) → calls[j]? = some (rank, total') →
      s.reports[i]? = some r → r.isEntered = true → s.reports[j]? = some r' →
        s.step (.report j) = { s with reports := s.reports.set j (.failed (.reportedTwice rank)) }) ∧
    (∀ q ∈ s.inquiries,
      (∀ answer, q.answer = .ok answer →
        answer = none ∨ (answer = some sum ∧ (s.written.map Prod.fst).Perm (List.range layout.ranks))) ∧
      (sum < Word.size → ∀ f, q ≠ .failed f)) ∧
    ((∀ rank < layout.ranks, ∃ (i : Nat) (total : Nat), calls[i]? = some (rank, total) ∧
      s.reports[i]? = some .finished) → sum < Word.size → s.shared.tryRunMajor = .ok (some sum)) := by
  intro s sum
  have h : s.Sound layout.ranks calls := (sound_start hc calls inquiries).run schedule
  refine ⟨h.reported_le, ⟨h.nodup, h.mem_calls, fun _ _ => h.written⟩, ?_, fun q hq => ⟨fun answer hanswer => ?_, ?_⟩,
    fun hall hsum => ?_⟩
  · intro i j rank total total' r r' hij hi hj hr hentered hr'
    exact h.step_again hij hi hj hr hentered hr'
  · match q, h.inquiry q hq, hanswer with
    | .finished none, _, hanswer => exact .inl (Except.ok.inj hanswer).symm
    | .finished (some total), ⟨hranks, htotal⟩, hanswer =>
        refine .inr ⟨(Except.ok.inj hanswer).symm.trans (congrArg some (htotal.trans h.sum)), h.perm_range ?_⟩
        exact h.ranks_eq ▸ Nat.le_trans hranks h.reported_le
  · rintro hsum f rfl
    exact absurd (h.inquiry _ hq).2 (Nat.not_le.mpr (h.sum ▸ hsum))
  · have hranks : s.shared.layout.ranks ≤ s.shared.reported := h.ranks_eq ▸ h.ranks_le_reported hall
    have hslots : s.shared.slotSum = sum := h.sum
    have hadd : Inquiry.sumSlots s.shared = .ok sum := by
      rw [← hslots] at hsum ⊢
      exact Word.checkedSum_eq_ok hsum
    simp only [Coordinator.tryRunMajor, Inquiry.step, if_pos hranks, hadd, Inquiry.answer]

/-- Three reports for two ranks. The last one comes first and fills the slot of rank 0, so that the first one fails; a
question between the writing and the counting of the other rank gets no answer, and a later one the sum. -/
theorem run_reports_two : ∃ c s, Coordinator.start 9 ⟨2, 1⟩ 4 1 1 = .ok c ∧
    s = (start c [(0, 5), (1, 7), (0, 9)] 2).run [.report 2, .report 0, .report 2, .report 1, .inquire 0, .report 1,
      .inquire 1, .inquire 1] ∧
    s.inquiries = [.finished none, .finished (some 16)] ∧ s.reports[0]? = some (.failed (.reportedTwice 0)) ∧
    (s.written.map Prod.fst).Perm (List.range 2) ∧ s.shared.tryRunMajor = .ok (some 16) := by
  let c : Coordinator :=
    { vertexCount := 9, layout := ⟨2, 1⟩, chunkSize := 4, stealBatch := 1
      cursors := #[⟨0, 4⟩, ⟨4, 9⟩], backlogs := #[#[], #[]], queue := ⟨1, []⟩
      produced := 0, claimed := 0, results := #[none, none], reported := 0 }
  let calls : List (Nat × Nat) := [(0, 5), (1, 7), (0, 9)]
  let schedule : List Turn :=
    [.report 2, .report 0, .report 2, .report 1, .inquire 0, .report 1, .inquire 1, .inquire 1]
  let s : Ledger := (start c calls 2).run schedule
  have hc : Coordinator.start 9 ⟨2, 1⟩ 4 1 1 = .ok c := by decide +kernel
  have hinquiries : s.inquiries = [.finished none, .finished (some 16)] := by decide +kernel
  have hsum : (s.written.map Prod.snd).sum = 16 := by decide +kernel
  obtain ⟨-, -, -, hquestions, hanswered⟩ := run_reports hc calls 2 schedule
  obtain ⟨hanswer, -⟩ := hquestions (.finished (some 16)) (hinquiries ▸ List.mem_cons_of_mem _ List.mem_cons_self)
  obtain ⟨-, hperm⟩ := (hanswer (some 16) rfl).resolve_left nofun
  have hall : ∀ rank < 2, ∃ (i : Nat) (total : Nat), calls[i]? = some (rank, total) ∧
      s.reports[i]? = some .finished := by
    intro rank hrank
    match rank, hrank with
    | 0, _ => exact ⟨2, 9, rfl, by decide +kernel⟩
    | 1, _ => exact ⟨1, 7, rfl, by decide +kernel⟩
  have hmajor := hanswered hall (hsum.trans_lt (by decide))
  exact ⟨c, s, hc, rfl, hinquiries, by decide +kernel, hperm, hsum ▸ hmajor⟩

end Ledger

end PatternCount
