import Mathlib.Data.Finset.Card
import PatternCount.Proofs.Work.Moves

/-!
# Every call comes to its end

A call that finds nothing at hand looks at all workers, chooses one that has something left and claims from it.
If others were faster the claim fails, and it looks again. Each such failure shows one more slice to be
exhausted for good, and a slice known to be exhausted is not chosen again. `Traced g c call scans steps` keeps
account of this for a call of worker `g` that has begun `scans` scans and taken `steps` steps: there are slices
that were tried in vain, as many as scans but the last.

The account is kept by each step of the call (`Move.traced`), and what other workers do in between does not
disturb it (`Traced.later`). So a call scans no more often than there are workers (`Traced.scans_le`) and takes
fewer steps than `maxSteps` (`Traced.steps_lt`).
-/

namespace PatternCount.Call

open Coordinator

def begun : Call → Nat
  | claimOwn => 0
  | popBacklog => 0
  | popQueue => 0
  | _ => 1

def beginsScan : Call → Nat
  | scan 0 none => 1
  | _ => 0

/-- How many steps a call has taken at most, if it has not tried to claim in vain. -/
def offset (workers : Nat) : Call → Nat
  | claimOwn => 0
  | countOwn _ _ => 1
  | popBacklog => 1
  | popQueue => 2
  | scan peer _ => peer + 3
  | popQueueAgain => workers + 4
  | claimFrom _ _ => workers + 4
  | countStolen _ _ _ => workers + 5
  | relinquish _ _ => workers + 6
  | keep _ _ => workers + 7
  | handOut _ => workers + 8
  | finished _ => workers + 9
  | failed _ => 0

/-- The worker that a call is about to claim from, as things stand. -/
def target : Call → Option Nat
  | scan _ (some (victim, _ + 1)) => some victim
  | claimFrom victim _ => some victim
  | _ => none

/-- The slices in `tried` are exhausted, and account for the scans and steps of a call. -/
structure TracedBy (g : Nat) (c : Coordinator) (call : Call) (scans steps : Nat) (tried : Finset Nat) : Prop where
  exhausted : ∀ v ∈ tried, v < c.layout.workers ∧ v ≠ g ∧ c.remaining v = 0
  target : ∀ v, call.target = some v → v ∉ tried
  scans_le : scans ≤ tried.card + call.begun
  steps_le : steps ≤ call.offset c.layout.workers + (c.layout.workers + 2) * tried.card

def Traced (g : Nat) (c : Coordinator) (call : Call) (scans steps : Nat) : Prop :=
  ∃ tried, TracedBy g c call scans steps tried

section

variable {g scans steps : Nat} {c c' : Coordinator} {call call' : Call} {tried : Finset Nat}

theorem traced_start (h : call.target = none) : Traced g c call 0 0 := by
  refine ⟨∅, nofun, ?_, Nat.zero_le _, Nat.zero_le _⟩
  intro v hv
  rw [h] at hv
  cases hv

theorem TracedBy.later (ht : TracedBy g c call scans steps tried) (h : c.Later c') :
    TracedBy g c' call scans steps tried where
  exhausted := fun v hv => by
    obtain ⟨hworker, hne, hexhausted⟩ := ht.exhausted v hv
    exact ⟨h.layout ▸ hworker, hne, Nat.le_zero.mp (hexhausted ▸ h.remaining_le v)⟩
  target := ht.target
  scans_le := ht.scans_le
  steps_le := h.layout ▸ ht.steps_le

theorem Traced.later (ht : Traced g c call scans steps) (h : c.Later c') : Traced g c' call scans steps := by
  obtain ⟨tried, ht⟩ := ht
  exact ⟨tried, ht.later h⟩

/-- The account after a step that tries nothing new: the call is a step further. -/
theorem TracedBy.next (ht : TracedBy g c call scans steps tried)
    (htarget : ∀ v, call'.target = some v → v ∉ tried)
    (hscans : call.begun + call'.beginsScan ≤ call'.begun)
    (hsteps : call.offset c.layout.workers + 1 ≤ call'.offset c.layout.workers) :
    TracedBy g c call' (scans + call'.beginsScan) (steps + 1) tried where
  exhausted := ht.exhausted
  target := htarget
  scans_le := by
    have := ht.scans_le
    omega
  steps_le := by
    have := ht.steps_le
    omega

/-- The worker chosen by a scan had something left when it was looked at. -/
theorem target_better {peer remaining v : Nat} {best : Option (Nat × Nat)}
    (h : (scan (peer + 1) (better best peer remaining)).target = some v) :
    (v = peer ∧ 0 < remaining) ∨ (scan peer best).target = some v := by
  rcases best with _ | ⟨victim, most⟩
  · cases remaining with
    | zero => cases h
    | succ r => exact .inl ⟨(Option.some.inj h).symm, r.succ_pos⟩
  · rw [better] at h
    split at h
    · cases remaining with
      | zero => cases h
      | succ r => exact .inl ⟨(Option.some.inj h).symm, r.succ_pos⟩
    · cases most with
      | zero => cases h
      | succ most => exact .inr h

/-- A claim in vain adds its victim to those that were tried. -/
theorem TracedBy.missed {victim amount : Nat} {k : Cursor}
    (ht : TracedBy g c (claimFrom victim amount) scans steps tried) (hf : (claimFrom victim amount).Fits g c)
    (hk : c.cursors[victim]? = some k) (hnext : k.stop ≤ k.next) :
    TracedBy g c (scan 0 none) (scans + 1) (steps + 1) (insert victim tried) := by
  have hcard : (insert victim tried).card = tried.card + 1 :=
    Finset.card_insert_of_notMem (ht.target victim rfl)
  refine ⟨?_, nofun, ?_, ?_⟩
  · intro v hv
    rcases Finset.mem_insert.mp hv with rfl | hv
    · exact ⟨hf.2.1, hf.2.2.1, (remaining_eq hk).trans (Nat.sub_eq_zero_of_le hnext)⟩
    · exact ht.exhausted v hv
  · have hscans := ht.scans_le
    rw [hcard]
    exact Nat.succ_le_succ hscans
  · have hsteps := ht.steps_le
    rw [hcard, Nat.mul_succ]
    simp only [offset] at hsteps ⊢
    omega

theorem Move.traced (h : Move g c call call' c') (hf : call.Fits g c) (ht : Traced g c call scans steps) :
    Traced g c' call' (scans + call'.beginsScan) (steps + 1) := by
  refine Traced.later ?_ h.later
  obtain ⟨tried, ht⟩ := ht
  cases h with
  | @scanSelf best hg =>
      refine ⟨tried, ht.next (fun v hv => ht.target v ?_) (Nat.le_refl _) (Nat.le_refl _)⟩
      rcases best with _ | ⟨victim, _ | r⟩
      · cases hv
      · cases hv
      · exact hv
  | scan hpeer hne =>
      refine ⟨tried, ht.next ?_ (Nat.le_refl _) (Nat.le_refl _)⟩
      intro v hv hmem
      rcases target_better hv with ⟨rfl, hpos⟩ | hv
      · exact Nat.ne_of_gt hpos (ht.exhausted v hmem).2.2
      · exact ht.target v hv hmem
  | @choose peer victim r hpeer hr =>
      obtain ⟨r, rfl⟩ := Nat.exists_eq_succ_of_ne_zero (Nat.ne_of_gt hr)
      refine ⟨tried, ht.next (fun v hv => ht.target v hv) (Nat.le_refl _) ?_⟩
      have := hf.2.1
      simp only [offset]
      omega
  | alone | allExhausted =>
      refine ⟨tried, ht.next nofun (Nat.le_refl _) ?_⟩
      have := hf.2.1
      simp only [offset]
      omega
  | missed hk hnext => exact ⟨_, ht.missed hf hk hnext⟩
  | _ =>
      refine ⟨tried, ht.next nofun (by simp only [begun, beginsScan]; omega) ?_⟩
      simp only [offset]
      omega

/-- Fewer slices were tried in vain than there are workers. -/
theorem TracedBy.card_lt (ht : TracedBy g c call scans steps tried) (hg : g < c.layout.workers) :
    tried.card < c.layout.workers := by
  have hsub : insert g tried ⊆ Finset.range c.layout.workers := by
    intro v hv
    rcases Finset.mem_insert.mp hv with rfl | hv
    · exact Finset.mem_range.mpr hg
    · exact Finset.mem_range.mpr (ht.exhausted v hv).1
  have hcard := Finset.card_le_card hsub
  rwa [Finset.card_insert_of_notMem fun h => (ht.exhausted g h).2.1 rfl, Finset.card_range] at hcard

theorem begun_le_one : call.begun ≤ 1 := by
  cases call <;> simp only [begun] <;> omega

theorem Traced.scans_le (ht : Traced g c call scans steps) (hg : g < c.layout.workers) :
    scans ≤ c.layout.workers := by
  obtain ⟨tried, ht⟩ := ht
  exact Nat.le_trans ht.scans_le (Nat.le_trans (Nat.add_le_add_left begun_le_one _) (ht.card_lt hg))

theorem Fits.offset_le (hf : call.Fits g c) : call.offset c.layout.workers ≤ c.layout.workers + 9 := by
  cases call with
  | scan peer best =>
      have := hf.2.1
      simp only [offset]
      omega
  | _ =>
      simp only [offset]
      omega

theorem Traced.steps_lt (ht : Traced g c call scans steps) (hf : call.Fits g c) (hg : g < c.layout.workers) :
    steps < maxSteps c.layout.workers := by
  obtain ⟨tried, ht⟩ := ht
  have hsteps := ht.steps_le
  have hoffset := hf.offset_le
  have htried := Nat.mul_le_mul_left (c.layout.workers + 2) (ht.card_lt hg)
  rw [Nat.mul_succ] at htried
  rw [maxSteps, Nat.succ_mul, Nat.mul_comm c.layout.workers]
  omega

end

end PatternCount.Call
