import Mathlib.Data.List.ReduceOption
import PatternCount.Proofs.Work.Calls

/-!
# Cursors and the end of the word

A cursor moves on by a chunk with every call of its worker, also when nothing is left of its slice. Nothing stops
it at the end of the word: there the sum of its position and the chunk overflows, or the cursor comes round to the
start and its slice is handed out a second time (`getLoops_overrun`).

How far a cursor is past the end of its slice is bounded by the calls of its worker and one steal (`Ahead`), since
a worker is only stolen from while something is left of its slice. So there is no overflow, and no vertex is handed
out twice, as long as the chunks of the calls that a worker makes fit into a word (`getLoops_nodup`).
-/

namespace PatternCount

open WorkUnit

namespace Coordinator

/-- What calls for work that are made one after the other answer, each by a worker of a rank. -/
def getLoops : List (Nat × Nat) → Coordinator → List (Except Fault (Option WorkUnit))
  | [], _ => []
  | (rank, worker) :: rest, c => (c.getLoop rank worker).1 :: getLoops rest (c.getLoop rank worker).2

/-- Cursors are past the ends of their slices by no more than the calls that their workers have made, and a
steal. -/
def Ahead (calls : Nat → Nat) (c : Coordinator) : Prop :=
  ∀ (g : Nat) k, c.cursors[g]? = some k → k.next < k.stop + (calls g + 1) * c.chunkSize

end Coordinator

/-- How many calls each worker has made, if worker `g` makes another. -/
def anotherCall (g : Nat) (calls : Nat → Nat) : Nat → Nat := Function.update calls g (calls g + 1)

namespace Call

open Coordinator

/-- Where the cursors are in an uninterrupted call of worker `g`, before which `calls` were made. -/
def Near (g : Nat) (calls : Nat → Nat) (call : Call) (c : Coordinator) : Prop :=
  match call with
  | claimOwn => Ahead calls c
  | claimFrom victim amount => Ahead (anotherCall g calls) c ∧
      ∀ k, c.cursors[victim]? = some k → k.next + amount < k.stop + c.chunkSize
  | _ => Ahead (anotherCall g calls) c

end Call

section

open Coordinator Call

variable {g : Nat} {c₀ c c' : Coordinator} {call call' : Call} {calls : Nat → Nat}

theorem Coordinator.Ahead.advance (ha : c.Ahead calls) {v amount : Nat} {k : Cursor} (hk : c.cursors[v]? = some k)
    {calls' : Nat → Nat} (hle : ∀ w ≠ v, calls w ≤ calls' w)
    (hnext : k.next + amount < k.stop + (calls' v + 1) * c.chunkSize) : (c.advance v k amount).Ahead calls' := by
  intro w k' hk'
  rw [getElem?_cursors_advance hk] at hk'
  split at hk'
  · next h =>
      subst h
      obtain rfl := Option.some.inj hk'
      exact hnext
  · next h =>
      have hmul := Nat.mul_le_mul_right c.chunkSize (Nat.succ_le_succ (hle w (Ne.symm h)))
      exact Nat.lt_of_lt_of_le (ha w k' hk') (Nat.add_le_add_left hmul _)

theorem Coordinator.Ahead.advance_own (ha : c.Ahead calls) {k : Cursor} (hk : c.cursors[g]? = some k) :
    (c.advance g k c.chunkSize).Ahead (anotherCall g calls) := by
  refine ha.advance hk (fun w hw => ?_) ?_
  · rw [anotherCall, Function.update_of_ne hw]
  · have hlt := ha g k hk
    rw [anotherCall, Function.update_self, Nat.succ_mul (calls g + 1)]
    omega

theorem Coordinator.Ahead.advance_stolen (ha : c.Ahead calls) {v amount : Nat} {k : Cursor}
    (hk : c.cursors[v]? = some k) (hnext : k.next + amount < k.stop + c.chunkSize) :
    (c.advance v k amount).Ahead calls := by
  refine ha.advance hk (fun w _ => Nat.le_refl _) (Nat.lt_of_lt_of_le hnext ?_)
  exact Nat.add_le_add_left (Nat.le_mul_of_pos_left _ (Nat.succ_pos _)) _

theorem Call.Move.near (h : Move g c call call' c') (hs : c.Sound) (ht : Tells g c₀ call c)
    (hn : Near g calls call c) : Near g calls call' c' := by
  cases h with
  | claimOwn hk | ownExhausted hk => exact hn.advance_own hk
  | claimFrom hk | missed hk => exact hn.1.advance_stolen hk (hn.2 _ hk)
  | @choose peer victim r hpeer hr =>
      refine ⟨hn, fun k hk => ?_⟩
      have hremaining : k.remaining = r := (remaining_eq hk).symm.trans (ht.2.2.2 victim r rfl)
      have hlt := chunksToSteal_mul_lt_add c.stealBatch hs.chunk_pos hr
      rw [Cursor.remaining] at hremaining
      omega
  | _ => exact hn

theorem Call.Near.wraps (hn : Near g calls call c) (hs : c.Sound)
    (hfits : c.vertexCount + (calls g + 2) * c.chunkSize ≤ Word.size) : call.wraps g c = false := by
  have hmul : c.chunkSize ≤ (calls g + 2) * c.chunkSize := Nat.le_mul_of_pos_left _ (Nat.succ_pos _)
  cases call with
  | claimOwn =>
      rw [Call.wraps, Coordinator.wraps]
      cases hk : c.cursors[g]? with
      | none => rfl
      | some k =>
          have hlt := hn g k hk
          have hstop := hs.stop_le g k hk
          rw [Nat.succ_mul (calls g + 1)] at hfits
          exact decide_eq_false (by omega)
  | claimFrom victim amount =>
      rw [Call.wraps, Coordinator.wraps]
      cases hk : c.cursors[victim]? with
      | none => rfl
      | some k =>
          have hlt := hn.2 k hk
          have hstop := hs.stop_le victim k hk
          exact decide_eq_false (by omega)
  | _ => rfl

end

namespace Coordinator

variable {g n chunkSize queueCapacity stealBatch : Nat} {layout : Layout} {c : Coordinator} {calls : Nat → Nat}

theorem ahead_of_start (h : start n layout chunkSize queueCapacity stealBatch = .ok c) : c.Ahead fun _ => 0 := by
  obtain ⟨-, hchunk, -, rfl⟩ := start_eq_ok h
  intro g k hk
  rw [Array.getElem?_map] at hk
  obtain ⟨v, -, rfl⟩ := Option.map_eq_some_iff.mp hk
  have hle : n * v / layout.workers ≤ n * (v + 1) / layout.workers :=
    Nat.div_le_div_right (Nat.mul_le_mul_left n (Nat.le_succ v))
  show n * v / layout.workers < n * (v + 1) / layout.workers + (0 + 1) * chunkSize
  omega

/-- A call that is made while the chunks of the calls of its worker fit into a word comes to an answer. -/
theorem getLoop_of_ahead {rank worker : Nat} (hs : c.Sound) (hg : c.globalWorker rank worker = .ok g)
    (ha : c.Ahead calls) (hfits : c.vertexCount + (calls g + 2) * c.chunkSize ≤ Word.size) :
    ∃ u c', c.getLoop rank worker = (.ok u, c') ∧ c.Later c' ∧ Call.Since c (.finished u) c' ∧
      c'.Ahead (anotherCall g calls) := by
  let P : Call → Coordinator → Prop := fun call c' =>
    c.Later c' ∧ Call.Since c call c' ∧ Call.Tells g c call c' ∧ Call.Near g calls call c'
  have hP : ∀ {call c₁ call' c₂}, c₁.Sound → call.Fits g c₁ → P call c₁ → Call.Move g c₁ call call' c₂ →
      P call' c₂ := fun hs hf hp hmove =>
    ⟨hp.1.trans hmove.later, hmove.since hs hf hp.2.1, hmove.tells hs hp.2.2.1, hmove.near hs hp.2.2.1 hp.2.2.2⟩
  have hwraps : ∀ {call c₁}, c₁.Sound → call.Fits g c₁ → P call c₁ → call.wraps g c₁ = false := fun hs _ hp =>
    hp.2.2.2.wraps hs (by rw [hp.1.vertexCount, hp.1.chunkSize]; exact hfits)
  have hstart : P .claimOwn c := ⟨.refl c, Call.since_start rfl rfl rfl rfl, ⟨rfl, rfl, fun _ => rfl⟩, ha⟩
  have hg' := globalWorker_lt hg
  obtain ⟨u, c', hcomplete, hlater, -, hsince, -, hnear⟩ := complete_eq_ok (Q := P) hP hs hg'
    (show Call.claimOwn.Fits g c from trivial) rfl hstart (Call.runWraps_eq_false hwraps hP hs hg' trivial hstart)
  refine ⟨u, c', ?_, hlater, hsince, hnear⟩
  rw [getLoop, hg]
  exact hcomplete

theorem globalWorker_inj {call call' : Nat × Nat} (h : c.globalWorker call.1 call.2 = .ok g)
    (h' : c.globalWorker call'.1 call'.2 = .ok g) : call = call' := by
  obtain ⟨-, hworker, hg⟩ := globalWorker_eq_ok.mp h
  obtain ⟨-, hworker', hg'⟩ := globalWorker_eq_ok.mp h'
  have hdiv := congrArg (· / c.layout.threadsPerRank) (hg.trans hg'.symm)
  have hmod := congrArg (· % c.layout.threadsPerRank) (hg.trans hg'.symm)
  simp only [Nat.mul_add_mod', Nat.mod_eq_of_lt hworker, Nat.mod_eq_of_lt hworker'] at hmod
  have hpos : 0 < c.layout.threadsPerRank := Nat.zero_lt_of_lt hworker
  simp only [Nat.mul_comm _ c.layout.threadsPerRank, Nat.mul_add_div hpos, Nat.div_eq_of_lt hworker,
    Nat.div_eq_of_lt hworker', Nat.add_zero] at hdiv
  exact Prod.ext hdiv hmod

/-- What is asked of each of some calls, before which others were made: that its worker exists, and that the chunks
of all calls of the worker fit into a word, and one more. -/
def Fitting (calls : Nat → Nat) (c : Coordinator) (requests : List (Nat × Nat)) : Prop :=
  ∀ request ∈ requests, ∃ g, c.globalWorker request.1 request.2 = .ok g ∧
    c.vertexCount + (calls g + requests.count request + 1) * c.chunkSize ≤ Word.size

theorem Fitting.tail {request : Nat × Nat} {rest : List (Nat × Nat)} (h : Fitting calls c (request :: rest))
    (hg : c.globalWorker request.1 request.2 = .ok g) : Fitting (anotherCall g calls) c rest := by
  intro other hother
  obtain ⟨g', hg', hfits⟩ := h other (List.mem_cons_of_mem request hother)
  refine ⟨g', hg', ?_⟩
  by_cases hsame : other = request
  · subst hsame
    obtain rfl := Except.ok.inj (hg.symm.trans hg')
    rw [List.count_cons_self] at hfits
    rwa [anotherCall, Function.update_self, Nat.add_right_comm (calls g)]
  · have hne : g' ≠ g := fun h => hsame (globalWorker_inj hg' (h ▸ hg))
    rw [List.count_cons_of_ne (Ne.symm hsame)] at hfits
    rwa [anotherCall, Function.update_of_ne hne]

/-- The answers to calls are units that come from what is in stock, each vertex at most once. -/
theorem Sound.getLoops_eq : ∀ {requests : List (Nat × Nat)} {c : Coordinator} {calls : Nat → Nat}, c.Sound →
    c.Ahead calls → Fitting calls c requests →
    ∃ answers : List (Option WorkUnit), c.getLoops requests = answers.map .ok ∧ bag answers.reduceOption ≤ c.stock
  | [], c, _, _, _, _ => ⟨[], rfl, Multiset.zero_le _⟩
  | (rank, worker) :: rest, c, calls, hs, ha, hfitting => by
      obtain ⟨g, hg, hfits⟩ := hfitting _ List.mem_cons_self
      rw [List.count_cons_self] at hfits
      have hmul : (calls g + 2) * c.chunkSize ≤ (calls g + (rest.count (rank, worker) + 1) + 1) * c.chunkSize :=
        Nat.mul_le_mul_right _ (by omega)
      obtain ⟨u, c', hcall, hlater, hsince, ha'⟩ := getLoop_of_ahead hs hg ha (by omega)
      have hfitting' : Fitting (anotherCall g calls) c' rest := by
        intro request hmem
        rw [hlater.globalWorker, hlater.vertexCount, hlater.chunkSize]
        exact hfitting.tail hg request hmem
      obtain ⟨answers, hanswers, hbag⟩ := Sound.getLoops_eq (hs.later hlater) ha' hfitting'
      refine ⟨u :: answers, ?_, ?_⟩
      · rw [getLoops, hcall, hanswers]
        rfl
      · have hstock : bag (Call.returned (.finished u)) + 0 + c'.stock = c.stock := hsince.stock
        rw [← hstock, add_zero]
        cases u with
        | none => exact hbag.trans (Multiset.le_add_left _ _)
        | some u =>
            rw [List.reduceOption_cons_of_some, bag_cons, ← bag_singleton]
            exact add_le_add_right hbag _

/-- Calls for work that are made one after the other, by any workers in any order, all come to an answer, and no
vertex is handed out twice, if the chunks of the calls of each worker fit into a word, and one more, behind the
vertices. -/
theorem getLoops_nodup (hn : n < 2 ^ 32) (hc : start n layout chunkSize queueCapacity stealBatch = .ok c)
    {requests : List (Nat × Nat)} (hworkers : ∀ r ∈ requests, r.1 < layout.ranks ∧ r.2 < layout.threadsPerRank)
    (hfits : ∀ r ∈ requests, n + (requests.count r + 1) * chunkSize ≤ Word.size) :
    ∃ answers : List (Option WorkUnit), c.getLoops requests = answers.map .ok ∧
      (answers.reduceOption.flatMap WorkUnit.vertices).Nodup := by
  have hfitting : Fitting (fun _ => 0) c requests := by
    obtain ⟨-, -, -, rfl⟩ := start_eq_ok hc
    intro r hr
    obtain ⟨hrank, hworker⟩ := hworkers r hr
    refine ⟨_, globalWorker_eq_ok.mpr ⟨hrank, hworker, rfl⟩, ?_⟩
    rw [Nat.zero_add]
    exact hfits r hr
  obtain ⟨answers, hanswers, hbag⟩ := Sound.getLoops_eq (sound_of_start hn hc) (ahead_of_start hc) hfitting
  rw [stock_of_start hc] at hbag
  exact ⟨answers, hanswers, Multiset.coe_nodup.mp (Multiset.nodup_of_le hbag (nodup_span _ _))⟩

/-- Two ranks of one worker, with chunks of which three fit into a word: one worker takes all vertices, and its two
calls do no harm. -/
theorem getLoops_nodup_two :
    ∃ c, start 4 ⟨2, 1⟩ (2 ^ 62) 1 1 = .ok c ∧
      ∃ answers : List (Option WorkUnit), c.getLoops [(0, 0), (0, 0), (1, 0), (1, 0)] = answers.map .ok ∧
        (answers.reduceOption.flatMap WorkUnit.vertices).Nodup := by
  let c : Coordinator :=
    { vertexCount := 4, layout := ⟨2, 1⟩, chunkSize := 2 ^ 62, stealBatch := 1
      cursors := #[⟨0, 2⟩, ⟨2, 4⟩], backlogs := #[#[], #[]], queue := ⟨1, []⟩
      produced := 0, claimed := 0, results := #[none, none], reported := 0 }
  have hc : start 4 ⟨2, 1⟩ (2 ^ 62) 1 1 = .ok c := by decide +kernel
  exact ⟨c, hc, getLoops_nodup (by decide) hc (by decide) (by decide)⟩

/-- Where chunks do not fit, the first call can overflow, and a worker whose cursor has come round is handed the
same vertex again. -/
theorem getLoops_overrun :
    (∃ c, start 2 ⟨1, 2⟩ Word.max 1 1 = .ok c ∧ c.getLoops [(0, 1)] = [.error .addOverflow]) ∧
      ∃ c, start 1 ⟨1, 1⟩ (2 ^ 63) 1 1 = .ok c ∧
        c.getLoops [(0, 0), (0, 0), (0, 0)] = [.ok (some ⟨0, 1, 0⟩), .ok none, .ok (some ⟨0, 1, 0⟩)] := by
  let two : Coordinator :=
    { vertexCount := 2, layout := ⟨1, 2⟩, chunkSize := Word.max, stealBatch := 1
      cursors := #[⟨0, 1⟩, ⟨1, 2⟩], backlogs := #[#[], #[]], queue := ⟨1, []⟩
      produced := 0, claimed := 0, results := #[none], reported := 0 }
  let one : Coordinator :=
    { vertexCount := 1, layout := ⟨1, 1⟩, chunkSize := 2 ^ 63, stealBatch := 1
      cursors := #[⟨0, 1⟩], backlogs := #[#[]], queue := ⟨1, []⟩
      produced := 0, claimed := 0, results := #[none], reported := 0 }
  exact ⟨⟨two, by decide +kernel, by decide +kernel⟩, one, by decide +kernel, by decide +kernel⟩

end Coordinator

end PatternCount
