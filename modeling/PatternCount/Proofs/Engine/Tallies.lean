import PatternCount.Engine.Run
import PatternCount.Proofs.Search.Count
import PatternCount.Proofs.Work.Reports

/-!
# What is counted

The number of tuples that begin in a unit is the sum, over its vertices, of the tuples that begin with them. So what
workers count comes down to the vertices that they have received: `Plan.yield p g vs` is the number of tuples that
begin with one of the vertices `vs`, and it adds up as multisets of vertices do (`Plan.yield_add`). Of all vertices
it is the number of all tuples (`Plan.yield_span`).

A worker adds what a unit yields to its share (`Engine.countInto_eq_ok`), and a rank adds the shares of its workers
to its tally and to its total (`Engine.addShares_eq_ok`). Neither fails as long as the sums are words, and there is a
slot of each kind for each worker.
-/

namespace PatternCount

open WorkUnit

/-! ## Tuples that begin with some vertices -/

namespace Plan

variable (p : Plan) (g : HostGraph)

noncomputable def tuplesFrom (v : Nat) : Nat :=
  (Level.completions p.levels g 1 (Function.update (fun _ => 0) 0 v)).card

noncomputable def yield (vs : Multiset Nat) : Nat := (vs.map (p.tuplesFrom g)).sum

variable {p g}

@[simp] theorem yield_zero : p.yield g 0 = 0 := rfl

theorem yield_add (vs ws : Multiset Nat) : p.yield g (vs + ws) = p.yield g vs + p.yield g ws := by
  rw [yield, Multiset.map_add, Multiset.sum_add]
  rfl

theorem yield_mono {vs ws : Multiset Nat} (h : vs ≤ ws) : p.yield g vs ≤ p.yield g ws := by
  obtain ⟨rest, rfl⟩ := Multiset.le_iff_exists_add.mp h
  rw [yield_add]
  exact Nat.le_add_right _ _

theorem yield_sum (bags : List (Multiset Nat)) : p.yield g bags.sum = (bags.map (p.yield g)).sum := by
  induction bags with
  | nil => rfl
  | cons vs bags ih => rw [List.sum_cons, yield_add, ih, List.map_cons, List.sum_cons]

theorem yield_bag_singleton {s : Search} (u : WorkUnit) :
    s.plan.yield s.graph (bag [u]) = (u.vertices.map s.rootCount).sum := by
  rw [bag_singleton]
  rfl

theorem yield_span : p.yield g (span 0 g.vertexCount) = Level.tupleCount p.levels g := by
  let s : Search := ⟨g, p, g.vertices, 0, .singly, .never, rfl⟩
  rw [span_zero]
  exact s.tupleCount_eq_sum.symm

end Plan

namespace Engine

/-! ## Workers -/

theorem countInto_eq_ok {s : Search} (hg : s.graph.Closed) {u : WorkUnit}
    (hu : bag [u] ≤ span 0 s.graph.vertexCount) {share : Share} {buffers : List Buffers}
    (hbuffers : buffers.length = s.plan.depth - 1)
    (hresult : share.result + s.plan.yield s.graph (bag [u]) < Word.size)
    (hhandled : share.handled + u.size < Word.size) :
    ∃ buffers', countInto s share buffers u
        = .ok (⟨share.result + s.plan.yield s.graph (bag [u]), share.handled + u.size⟩, buffers') ∧
      buffers'.length = s.plan.depth - 1 := by
  have hvertices : ∀ v ∈ u.vertices, v < s.graph.vertexCount := fun v hv => by
    have hmem : v ∈ bag [u] := by
      rw [bag, List.flatMap_singleton]
      exact hv
    rw [span_zero] at hu
    exact List.mem_range.mp (Multiset.mem_of_le hu hmem)
  have hcounted : (u.vertices.map s.rootCount).sum < Word.size := by
    rw [← Plan.yield_bag_singleton]
    exact Nat.lt_of_le_of_lt (Nat.le_add_left _ _) hresult
  obtain ⟨buffers', hcount, hbuffers'⟩ := Search.countUnit_eq_ok hg hvertices hbuffers hcounted
  rw [← Plan.yield_bag_singleton] at hcount
  refine ⟨buffers', ?_, hbuffers'⟩
  simp only [countInto, hcount, Word.checkedAdd, if_pos hresult, if_pos hhandled, bind, Except.bind, pure, Except.pure]

end Engine

/-! ## Ranks -/

namespace Tally

/-- A tally has one slot for each worker, and some workers. -/
structure Slotted (t : Tally) : Prop where
  pos : 0 < t.numThreads
  results : t.results.size = t.numThreads
  handled : t.handled.size = t.numThreads
  elapsed : t.elapsed.size = t.numThreads

/-- The second tally has that much more than the first, in as many slots for as many workers. -/
structure Grown (t t' : Tally) (result handled : Nat) : Prop where
  results : t'.results.toList.sum = t.results.toList.sum + result
  handled : t'.handled.toList.sum = t.handled.toList.sum + handled
  results_size : t'.results.size = t.results.size
  handled_size : t'.handled.size = t.handled.size
  elapsed_size : t'.elapsed.size = t.elapsed.size
  numThreads : t'.numThreads = t.numThreads

variable {t t' t'' : Tally} {worker result handled result' handled' : Nat} {seconds : Binary64}

theorem Grown.refl (t : Tally) : t.Grown t 0 0 := ⟨rfl, rfl, rfl, rfl, rfl, rfl⟩

theorem Grown.trans (h : t.Grown t' result handled) (h' : t'.Grown t'' result' handled') :
    t.Grown t'' (result + result') (handled + handled') where
  results := by rw [h'.results, h.results, Nat.add_assoc]
  handled := by rw [h'.handled, h.handled, Nat.add_assoc]
  results_size := h'.results_size.trans h.results_size
  handled_size := h'.handled_size.trans h.handled_size
  elapsed_size := h'.elapsed_size.trans h.elapsed_size
  numThreads := h'.numThreads.trans h.numThreads

/-- What the tally has for a correction plays no part. -/
theorem Grown.of_reset (h : ({ t with iepRedundancy := 0 } : Tally).Grown t' result handled) :
    t.Grown t' result handled := { h with }

theorem Grown.slotted (h : t.Grown t' result handled) (ht : t.Slotted) : t'.Slotted where
  pos := h.numThreads ▸ ht.pos
  results := by rw [h.results_size, ht.results, h.numThreads]
  handled := by rw [h.handled_size, ht.handled, h.numThreads]
  elapsed := by rw [h.elapsed_size, ht.elapsed, h.numThreads]

/-- What is added to one slot is added to the sum of all. -/
theorem sum_setIfInBounds {slots : Array Nat} {i x : Nat} (hx : slots[i]? = some x) (y : Nat) :
    (slots.setIfInBounds i (x + y)).toList.sum = slots.toList.sum + y := by
  have hset := sum_map_set (fun x => x) (b := x + y) (Array.getElem?_toList .. |>.trans hx)
  rw [List.map_id', List.map_id'] at hset
  rw [Array.toList_setIfInBounds]
  omega

theorem slotted_ofWorkers {numThreads : Nat} (h : ofWorkers numThreads = .ok t) :
    t.Slotted ∧ t.numThreads = numThreads ∧ t.results.toList.sum = 0 ∧ t.handled.toList.sum = 0 := by
  unfold ofWorkers at h
  split at h
  · cases h
  · next hne =>
      obtain ⟨-, h⟩ := check_bind_eq_ok_iff.mp h
      obtain rfl := Except.ok.inj h
      have hsum : (Array.replicate numThreads 0).toList.sum = 0 := by
        rw [Array.toList_replicate, List.sum_replicate_nat, Nat.mul_zero]
      exact ⟨⟨Nat.pos_of_ne_zero hne, Array.size_replicate, Array.size_replicate, Array.size_replicate⟩, rfl, hsum, hsum⟩

theorem alter_eq_ok {α : Type} {slots : Array α} {i : Nat} (hi : i < slots.size) {f : α → Except Fault α} {y : α}
    (hf : f slots[i] = .ok y) : alter slots i f = .ok (slots.setIfInBounds i y) := by
  simp only [alter, Fault.index, Array.getElem?_eq_getElem hi, hf, bind, Except.bind, pure, Except.pure]

/-- A slot is added to if there is room for the sum of all slots, which grows by as much. -/
theorem alter_checkedAdd {slots : Array Nat} {i y : Nat} (hi : i < slots.size)
    (hfits : slots.toList.sum + y < Word.size) : ∃ slots', alter slots i (Word.checkedAdd · y) = .ok slots' ∧
      slots'.toList.sum = slots.toList.sum + y ∧ slots'.size = slots.size := by
  have hle : slots[i] ≤ slots.toList.sum := List.le_sum_of_mem (Array.getElem_mem_toList hi)
  have hsum : Word.checkedAdd slots[i] y = .ok (slots[i] + y) :=
    if_pos (Nat.lt_of_le_of_lt (Nat.add_le_add_right hle y) hfits)
  exact ⟨_, alter_eq_ok hi hsum, sum_setIfInBounds (Array.getElem?_eq_getElem hi) y, Array.size_setIfInBounds⟩

theorem add_eq_ok (hresults : worker < t.results.size) (hhandled : worker < t.handled.size)
    (helapsed : worker < t.elapsed.size) (hresult : t.results.toList.sum + result < Word.size)
    (hcount : t.handled.toList.sum + handled < Word.size) :
    ∃ t', t.add worker result handled seconds = (.ok (), t') ∧ t.Grown t' result handled ∧
      t'.iepRedundancy = t.iepRedundancy := by
  obtain ⟨results, halter, hsum, hsize⟩ := alter_checkedAdd hresults hresult
  obtain ⟨handled', halter', hsum', hsize'⟩ := alter_checkedAdd hhandled hcount
  obtain ⟨elapsed, halter'', hsize''⟩ : ∃ elapsed, alter t.elapsed worker (fun x => .ok (x.add seconds)) = .ok elapsed ∧
      elapsed.size = t.elapsed.size := ⟨_, alter_eq_ok helapsed rfl, Array.size_setIfInBounds⟩
  refine ⟨{ t with results, handled := handled', elapsed }, ?_, ⟨hsum, hsum', hsize, hsize', hsize'', rfl⟩, rfl⟩
  simp only [add, halter, halter', halter'']

/-- Where there is no slot for the seconds, they are missed after the counts have been added. -/
example : (⟨1, #[3], #[1], #[], 0⟩ : Tally).add 0 5 2 .one
    = (.error (.indexOutOfBounds 0 0), ⟨1, #[8], #[3], #[], 0⟩) := rfl

theorem total_eq_ok (h : t.results.toList.sum < Word.size) : t.total = .ok t.results.toList.sum :=
  Word.checkedSum_eq_ok h

theorem handledTotal_eq_ok (h : t.handled.toList.sum < Word.size) : t.handledTotal = .ok t.handled.toList.sum :=
  Word.checkedSum_eq_ok h

end Tally

namespace Engine

/-- Shares are added to the slots of their workers, and up. -/
theorem addShares_eq_ok {seconds : Nat → Binary64} : ∀ {shares : List Share} {worker total : Nat} {t : Tally},
    worker + shares.length ≤ t.results.size → worker + shares.length ≤ t.handled.size →
    worker + shares.length ≤ t.elapsed.size → t.results.toList.sum + (shares.map Share.result).sum < Word.size →
    t.handled.toList.sum + (shares.map Share.handled).sum < Word.size →
    total + (shares.map Share.result).sum < Word.size →
    ∃ t', addShares seconds worker shares total t = (.ok (total + (shares.map Share.result).sum), t') ∧
      t.Grown t' (shares.map Share.result).sum (shares.map Share.handled).sum ∧ t'.iepRedundancy = t.iepRedundancy
  | [], _, _, t, _, _, _, _, _, _ => ⟨t, rfl, .refl t, rfl⟩
  | share :: rest, worker, total, t, hresults, hhandled, helapsed, hresult, hcount, htotal => by
      rw [List.length_cons] at hresults hhandled helapsed
      rw [List.map_cons, List.sum_cons] at hresult hcount htotal
      obtain ⟨t', hadd, hgrown, hredundancy⟩ : ∃ t', t.add worker share.result share.handled (seconds worker)
          = (.ok (), t') ∧ t.Grown t' share.result share.handled ∧ t'.iepRedundancy = t.iepRedundancy :=
        t.add_eq_ok (by omega) (by omega) (by omega) (by omega) (by omega)
      have hsum : Word.checkedAdd total share.result = .ok (total + share.result) := if_pos (by omega)
      obtain ⟨t'', hrest, hgrown', hredundancy'⟩ : ∃ t'', addShares seconds (worker + 1) rest (total + share.result) t'
            = (.ok (total + share.result + (rest.map Share.result).sum), t'') ∧
          t'.Grown t'' (rest.map Share.result).sum (rest.map Share.handled).sum ∧
            t''.iepRedundancy = t'.iepRedundancy := addShares_eq_ok
        (by rw [hgrown.results_size]; omega) (by rw [hgrown.handled_size]; omega)
        (by rw [hgrown.elapsed_size]; omega) (by rw [hgrown.results]; omega) (by rw [hgrown.handled]; omega) (by omega)
      refine ⟨t'', ?_, hgrown.trans hgrown', hredundancy'.trans hredundancy⟩
      rw [List.map_cons, List.sum_cons, ← Nat.add_assoc, ← hrest]
      simp only [addShares, hadd, hsum]

end Engine

end PatternCount
