import PatternCount.Proofs.Outcome
import PatternCount.Proofs.VertexSet.Algebra
import PatternCount.Search.Candidates

/-!
# What an expression makes of the sets it refers to

With the sets and vertices at hand that an expression refers to, its candidates can be written down as a list:
`SetExpr.survivors` takes the members of the base that lie between the bounds, sifts them by one operation after the
other, and leaves out the excluded vertices. `Search.Resolves` says that frames have these sets and vertices. If they
do, then `Search.evaluate` leaves this list in its buffer (`evaluate_eq_survivors`) and `Search.countCandidates` gives
its length (`countCandidates_eq_survivors`), whatever the buffers held before.

- **one operation** (`SetOp.result`): writing its result and counting it are two ways to the same set, and an
  excluded vertex may be left out on the way.
- **all operations** (`applyTo_eq_ok`): they go through two buffers in turn, and what is read is what was written last.
- **exclusions**: they are left out at the end (`VertexSet.difference`), or one of them by the last operation.
-/

namespace PatternCount

/-! ## The candidates as a list -/

/-- An operation spares the vertices that its operand has, or those that it has not. -/
def SetOp.Spares (operand : VertexSet) (v : Nat) : SetOp → Prop
  | .intersect _ => v ∈ operand
  | .subtract _ => v ∉ operand

instance {operand : VertexSet} {v : Nat} : ∀ op : SetOp, Decidable (op.Spares operand v)
  | .intersect _ => inferInstanceAs (Decidable (v ∈ operand))
  | .subtract _ => inferInstanceAs (Decidable (v ∉ operand))

/-- What an operation leaves of a list. -/
def SetOp.sift (op : SetOp) (operand : VertexSet) (xs : List Nat) : List Nat :=
  xs.filter fun v => op.Spares operand v

namespace SetExpr

variable (e : SetExpr) (sets : SetRef → VertexSet) (bound : Nat → Nat)

/-- The members of the base that lie between the bounds. -/
def between : List Nat :=
  (sets e.base).toList.filter fun v => (∀ p ∈ e.upper, v < bound p) ∧ ∀ p ∈ e.lower, bound p < v

/-- The members of the bounded base that every operation spares, applied from left to right, and that are not bound at
an excluded position. -/
def survivors : List Nat :=
  (e.ops.foldl (fun xs op => op.sift (sets op.operand) xs) (e.between sets bound)).filter fun v =>
    ∀ p ∈ e.exclude, v ≠ bound p

/-- The vertices bound at the excluded positions, each once. -/
def excluded : VertexSet := .ofUnsorted (e.exclude.map bound)

end SetExpr

section Survivors

variable {sets : SetRef → VertexSet} {bound : Nat → Nat}

theorem SetOp.ascending_foldl_sift : ∀ {ops : List SetOp} {xs : List Nat}, Ascending xs →
    Ascending (ops.foldl (fun xs op => op.sift (sets op.operand) xs) xs)
  | [], _, h => h
  | op :: rest, xs, h => by
      have hsift : Ascending (op.sift (sets op.operand) xs) := h.filter _
      rw [List.foldl_cons]
      exact ascending_foldl_sift hsift

theorem SetOp.mem_foldl_sift {v : Nat} : ∀ {ops : List SetOp} {xs : List Nat},
    v ∈ ops.foldl (fun xs op => op.sift (sets op.operand) xs) xs
      ↔ v ∈ xs ∧ ∀ op ∈ ops, op.Spares (sets op.operand) v
  | [], _ => by simp
  | op :: rest, xs => by
      rw [List.foldl_cons, mem_foldl_sift, sift, List.mem_filter, decide_eq_true_eq, and_assoc, List.forall_mem_cons]

theorem SetExpr.ascending_survivors (e : SetExpr) : Ascending (e.survivors sets bound) :=
  (SetOp.ascending_foldl_sift ((sets e.base).ascending_toList.filter _)).filter _

theorem SetExpr.mem_survivors {e : SetExpr} {v : Nat} :
    v ∈ e.survivors sets bound ↔
      (v ∈ sets e.base ∧ (∀ p ∈ e.upper, v < bound p) ∧ ∀ p ∈ e.lower, bound p < v) ∧
        (∀ op ∈ e.ops, op.Spares (sets op.operand) v) ∧ ∀ p ∈ e.exclude, v ≠ bound p := by
  rw [survivors, List.mem_filter, decide_eq_true_eq, SetOp.mem_foldl_sift, between, List.mem_filter,
    decide_eq_true_eq, VertexSet.mem_toList, and_assoc]

end Survivors

/-! ## One operation -/

namespace SetOp

/-- What an operation leaves of a set, without one vertex. -/
def result (op : SetOp) (set operand : VertexSet) (except : Option Nat) : VertexSet :=
  match op with
  | .intersect _ => set.common operand except
  | .subtract _ => set.difference operand except

variable {op : SetOp} {set operand : VertexSet} {except : Option Nat} {v : Nat}

theorem toList_result : (op.result set operand none).toList = op.sift operand set.toList := by
  cases op with
  | intersect r => exact List.filter_congr fun v _ => decide_eq_decide.mpr (and_iff_left nofun)
  | subtract r => exact List.filter_congr fun v _ => decide_eq_decide.mpr (and_iff_left nofun)

/-- Leaving out a vertex on the way is leaving it out at the end. -/
theorem mem_result_except :
    v ∈ op.result set operand except ↔ v ∈ op.result set operand none ∧ except ≠ some v := by
  cases op <;> simp [result, and_assoc]

theorem mem_result_iff_keeps :
    v ∈ op.result set operand none ↔ (set.contains v && Search.keeps op operand v) = true := by
  cases op <;> simp [result, Search.keeps, ← Bool.not_eq_true]

theorem countKept_eq : Search.countKept op set operand except = .ok (op.result set operand except).size := by
  cases op with
  | intersect r => rw [Search.countKept, VertexSet.intersectCount_eq, result]
  | subtract r => rw [Search.countKept, VertexSet.subtractCount_eq, result]

theorem apply_eq {s : Search} {frames : List Frame} (h : s.resolve frames op.operand = .ok operand)
    (out : Array Nat) : s.apply frames op set except out = .ok (op.result set operand except).members := by
  cases op with
  | intersect r =>
      show (s.resolve frames r >>= fun operand => .ok (set.intersectInto operand except out)) = _
      rw [show s.resolve frames r = _ from h]
      show Except.ok (set.intersectInto operand except out) = _
      rw [VertexSet.intersectInto_eq]
      rfl
  | subtract r =>
      show (s.resolve frames r >>= fun operand => .ok (set.subtractInto operand except out)) = _
      rw [show s.resolve frames r = _ from h]
      show Except.ok (set.subtractInto operand except out) = _
      rw [VertexSet.subtractInto_eq]
      rfl

end SetOp

/-! ## Exclusions -/

namespace VertexSet

/-- Taking the members of `b` out of `a` one by one makes the difference. -/
theorem filter_not_contains (a b : VertexSet) :
    (a.members.filter fun v => !b.contains v) = (a.difference b none).members := by
  refine Array.toList_inj.mp ?_
  rw [Array.toList_filter]
  refine List.filter_congr ?_
  intro v _
  rw [Bool.eq_iff_iff, Bool.not_eq_true', ← Bool.not_eq_true, contains_iff, decide_eq_true_eq]
  simp [mem_toList]

/-- Counting the members of `b` that are in `a`, and taking them off, counts the difference. -/
theorem checkedSub_hits {a b : VertexSet} {p : Nat → Bool} (h : ∀ v, p v = true ↔ v ∈ a) :
    Word.checkedSub a.size (b.toList.filter p).length = .ok (a.difference b none).size := by
  have hhits : (b.toList.filter p).length = (a.common b none).size := by
    rw [size_common, commonTo_comm a.ascending_toList b.ascending_toList, commonTo]
    refine congrArg List.length (List.filter_congr ?_)
    intro v _
    rw [Bool.eq_iff_iff, h, decide_eq_true_eq]
    simp [mem_toList]
  have hsplit := size_common_add_size_difference a b
  rw [hhits, Word.checkedSub, if_pos (by omega)]
  congr 1
  omega

theorem mem_of_only {set : VertexSet} {x : Nat} (h : Search.only? set = some x) {v : Nat} :
    v ∈ set ↔ v = x := by
  unfold Search.only? at h
  split at h
  · next y hlist =>
      obtain rfl := Option.some.inj h
      rw [← mem_toList, hlist, List.mem_singleton]
  · cases h

end VertexSet

/-- A single excluded vertex can as well be left out by the last operation. -/
theorem SetOp.result_of_only {op : SetOp} {set operand excluded : VertexSet} {x : Nat}
    (h : Search.only? excluded = some x) :
    op.result set operand (some x) = (op.result set operand none).difference excluded none := by
  refine VertexSet.ext_mem ?_
  intro v
  rw [mem_result_except, VertexSet.mem_difference, VertexSet.mem_of_only h]
  simp [eq_comm]

namespace Search

/-! ## Sets and vertices at hand -/

/-- The frames have the sets and the vertices that an expression refers to. -/
structure Resolves (s : Search) (frames : List Frame) (e : SetExpr) (sets : SetRef → VertexSet)
    (bound : Nat → Nat) : Prop where
  set : ∀ r ∈ e.refs, s.resolve frames r = .ok (sets r)
  vertex : ∀ p ∈ e.constrained, ∃ frame, frameAt frames p = .ok frame ∧ frame.vertex = bound p

variable {s : Search} {frames : List Frame} {e : SetExpr} {sets : SetRef → VertexSet} {bound : Nat → Nat}

theorem cutAbove_eq_ok {ps : List Nat} (run : VertexSet.Run)
    (h : ∀ p ∈ ps, ∃ frame, frameAt frames p = .ok frame ∧ frame.vertex = bound p) :
    ∃ run', cutAbove frames ps run = .ok run' ∧ ∀ v, v ∈ run'.toSet ↔ v ∈ run.toSet ∧ ∀ p ∈ ps, v < bound p := by
  induction ps generalizing run with
  | nil => exact ⟨run, rfl, by simp⟩
  | cons p rest ih =>
      obtain ⟨⟨frame, hframe, hvertex⟩, hrest⟩ := List.forall_mem_cons.mp h
      obtain ⟨run', hrun, hmem⟩ := ih (run.below (bound p)) hrest
      refine ⟨run', ?_, ?_⟩
      · rw [cutAbove, hframe]
        show cutAbove frames rest (run.below frame.vertex) = _
        rw [hvertex, hrun]
      · intro v
        rw [hmem, VertexSet.Run.mem_toSet_below, and_assoc, List.forall_mem_cons]

theorem cutBelow_eq_ok {ps : List Nat} (run : VertexSet.Run)
    (h : ∀ p ∈ ps, ∃ frame, frameAt frames p = .ok frame ∧ frame.vertex = bound p) :
    ∃ run', cutBelow frames ps run = .ok run' ∧ ∀ v, v ∈ run'.toSet ↔ v ∈ run.toSet ∧ ∀ p ∈ ps, bound p < v := by
  induction ps generalizing run with
  | nil => exact ⟨run, rfl, by simp⟩
  | cons p rest ih =>
      obtain ⟨⟨frame, hframe, hvertex⟩, hrest⟩ := List.forall_mem_cons.mp h
      obtain ⟨run', hrun, hmem⟩ := ih (run.above (bound p)) hrest
      refine ⟨run', ?_, ?_⟩
      · rw [cutBelow, hframe]
        show cutBelow frames rest (run.above frame.vertex) = _
        rw [hvertex, hrun]
      · intro v
        rw [hmem, VertexSet.Run.mem_toSet_above, and_assoc, List.forall_mem_cons]

theorem Resolves.boundedBase_eq_ok (h : s.Resolves frames e sets bound) :
    ∃ run, s.boundedBase frames e = .ok run ∧ run.toSet.toList = e.between sets bound := by
  have hvertex : ∀ p, p ∈ e.upper ∨ p ∈ e.lower → ∃ frame, frameAt frames p = .ok frame ∧ frame.vertex = bound p :=
    fun p hp => h.vertex p (List.mem_append_left _ (List.mem_append.mpr hp))
  obtain ⟨above, habove, hmem₁⟩ := cutAbove_eq_ok (.whole (sets e.base)) fun p hp => hvertex p (Or.inl hp)
  obtain ⟨run, hrun, hmem₂⟩ := cutBelow_eq_ok above fun p hp => hvertex p (Or.inr hp)
  refine ⟨run, ?_, ?_⟩
  · rw [boundedBase, h.set e.base List.mem_cons_self]
    show (cutAbove frames e.upper (.whole (sets e.base)) >>= _) = _
    rw [habove]
    exact hrun
  · refine run.toSet.ascending_toList.ext ((sets e.base).ascending_toList.filter _) ?_
    intro v
    rw [VertexSet.mem_toList, hmem₂, hmem₁, VertexSet.Run.toSet_whole, SetExpr.between, List.mem_filter,
      decide_eq_true_eq, VertexSet.mem_toList, and_assoc]

theorem Resolves.excludedVertices_eq (h : s.Resolves frames e sets bound) :
    excludedVertices frames e = .ok (e.excluded bound) := by
  rw [excludedVertices, mapM_eq_ok (g := bound) fun p hp => ?_]
  · rfl
  · obtain ⟨frame, hframe, hvertex⟩ := h.vertex p (List.mem_append_right _ hp)
    rw [hframe]
    show Except.ok frame.vertex = _
    rw [hvertex]

/-! ## All operations -/

/-- What operations leave of a set, applied from left to right. -/
def resultOfAll (sets : SetRef → VertexSet) (ops : List SetOp) (set : VertexSet) : VertexSet :=
  ops.foldl (fun set op => op.result set (sets op.operand) none) set

theorem toList_resultOfAll : ∀ (ops : List SetOp) (set : VertexSet),
    (resultOfAll sets ops set).toList = ops.foldl (fun xs op => op.sift (sets op.operand) xs) set.toList
  | [], _ => rfl
  | op :: rest, set => by
      rw [List.foldl_cons, ← SetOp.toList_result]
      exact toList_resultOfAll rest (op.result set (sets op.operand) none)

/-- The operations go through the two buffers in turn, and the first of them holds the result at the end. -/
theorem applyAll_eq_ok : ∀ {ops : List SetOp} (set : VertexSet) (spare : Array Nat),
    (∀ op ∈ ops, s.resolve frames op.operand = .ok (sets op.operand)) →
    ∃ spare', s.applyAll frames ops set.members spare = .ok ((resultOfAll sets ops set).members, spare')
  | [], _, spare, _ => ⟨spare, rfl⟩
  | op :: rest, set, spare, hops => by
      obtain ⟨hop, hrest⟩ := List.forall_mem_cons.mp hops
      obtain ⟨spare', happly⟩ := applyAll_eq_ok (op.result set (sets op.operand) none) set.members hrest
      refine ⟨spare', ?_⟩
      rw [applyAll, VertexSet.ofArray_members]
      show (s.apply frames op set none spare >>= fun out => s.applyAll frames rest out set.members) = _
      rw [SetOp.apply_eq hop]
      exact happly

theorem applyTo_eq_ok {ops : List SetOp} (set : VertexSet) (out spare : Array Nat)
    (hops : ∀ op ∈ ops, s.resolve frames op.operand = .ok (sets op.operand)) :
    ∃ out' spare', s.applyTo frames set ops out spare = .ok (resultOfAll sets ops set, out', spare') := by
  cases ops with
  | nil => exact ⟨out, spare, rfl⟩
  | cons op rest =>
      obtain ⟨hop, hrest⟩ := List.forall_mem_cons.mp hops
      obtain ⟨spare', happly⟩ := applyAll_eq_ok (op.result set (sets op.operand) none) spare hrest
      refine ⟨(resultOfAll sets rest (op.result set (sets op.operand) none)).members, spare', ?_⟩
      rw [applyTo, SetOp.apply_eq hop]
      show (s.applyAll frames rest (op.result set (sets op.operand) none).members spare >>= _) = _
      rw [happly]
      show (VertexSet.ofArray (resultOfAll sets rest (op.result set (sets op.operand) none)).members >>= _) = _
      rw [VertexSet.ofArray_members]
      rfl

/-! ## Making and counting -/

/-- The candidates as a set: what the operations leave of the bounded base, without the excluded vertices. -/
theorem toList_difference_excluded {base : VertexSet} (hbase : base.toList = e.between sets bound) :
    ((resultOfAll sets e.ops base).difference (e.excluded bound) none).toList = e.survivors sets bound := by
  show VertexSet.missingFrom none (resultOfAll sets e.ops base).toList _ = _
  rw [toList_resultOfAll, hbase]
  refine List.filter_congr fun v _ => decide_eq_decide.mpr ?_
  rw [VertexSet.mem_toList, SetExpr.excluded, VertexSet.mem_ofUnsorted, and_iff_left (nofun : none ≠ some v)]
  simp [eq_comm]

/-- All operations but the last are applied in the buffers, and the last to what they leave. -/
theorem Resolves.lastOperation_eq_ok (h : s.Resolves frames e sets bound) {last : SetOp}
    (hlast : e.ops.getLast? = some last) (set : VertexSet) (out spare : Array Nat) :
    ∃ before out' spare', s.applyTo frames set e.ops.dropLast out spare = .ok (before, out', spare') ∧
      s.resolve frames last.operand = .ok (sets last.operand) ∧
      last.result before (sets last.operand) none = resultOfAll sets e.ops set := by
  have hops : e.ops.dropLast ++ [last] = e.ops := List.dropLast_append_getLast? last hlast
  have hresolve : ∀ op ∈ e.ops, s.resolve frames op.operand = .ok (sets op.operand) := fun op hop =>
    h.set _ (List.mem_cons_of_mem _ (List.mem_map_of_mem hop))
  obtain ⟨out', spare', hbefore⟩ := applyTo_eq_ok set out spare fun op hop =>
    hresolve op (List.dropLast_subset _ hop)
  refine ⟨_, out', spare', hbefore, hresolve last (hops ▸ List.mem_append_right _ List.mem_cons_self), ?_⟩
  conv_rhs => rw [← hops]
  rw [resultOfAll, resultOfAll, List.foldl_append]
  rfl

/-- The set that is made is the list of the survivors. -/
theorem Resolves.evaluate_eq_survivors (h : s.Resolves frames e sets bound) (b : Buffers) :
    ∃ b', s.evaluate frames e b = .ok b' ∧ b'.set.toList = e.survivors sets bound := by
  obtain ⟨base, hbase, hbetween⟩ := h.boundedBase_eq_ok
  have hsurvivors := toList_difference_excluded hbetween
  cases hlast : e.ops.getLast? with
  | none =>
      rw [List.getLast?_eq_none_iff.mp hlast] at hsurvivors
      have hmade : s.evaluate frames e b
          = .ok { b with
              set := (base.toSet.difference (e.excluded bound) none).members
              excluded := (e.excluded bound).members } := by
        simp only [evaluate, h.excludedVertices_eq, hbase, hlast, bind, Except.bind, VertexSet.filter_not_contains]
        rfl
      exact ⟨_, hmade, hsurvivors⟩
  | some last =>
      obtain ⟨before, out, spare, hbefore, hoperand, hresult⟩ :=
        h.lastOperation_eq_ok hlast base.toSet b.spare b.set
      rw [← hresult] at hsurvivors
      have hmade : s.evaluate frames e b
          = .ok { b with
              set := ((last.result before (sets last.operand) none).difference (e.excluded bound) none).members
              spare := out
              excluded := (e.excluded bound).members } := by
        simp only [evaluate, h.excludedVertices_eq, hbase, hlast, hbefore, bind, Except.bind]
        cases honly : only? (e.excluded bound) with
        | some x => simp only [SetOp.apply_eq hoperand, SetOp.result_of_only honly, pure, Except.pure]
        | none => simp only [SetOp.apply_eq hoperand, VertexSet.filter_not_contains, pure, Except.pure]
      exact ⟨_, hmade, hsurvivors⟩

/-- The number that is counted is that of the survivors. -/
theorem Resolves.countCandidates_eq_survivors (h : s.Resolves frames e sets bound) (b : Buffers) :
    ∃ b', s.countCandidates frames e b = .ok ((e.survivors sets bound).length, b') := by
  obtain ⟨base, hbase, hbetween⟩ := h.boundedBase_eq_ok
  rw [← toList_difference_excluded hbetween, VertexSet.length_toList]
  cases hlast : e.ops.getLast? with
  | none =>
      rw [List.getLast?_eq_none_iff.mp hlast]
      have hcount : s.countCandidates frames e b
          = .ok ((base.toSet.difference (e.excluded bound) none).size,
            { b with excluded := (e.excluded bound).members }) := by
        simp only [countCandidates, h.excludedVertices_eq, hbase, hlast, bind, Except.bind,
          ← VertexSet.Run.size_toSet, VertexSet.checkedSub_hits fun _ => VertexSet.Run.contains_iff, pure, Except.pure]
      exact ⟨_, hcount⟩
  | some last =>
      obtain ⟨before, out, spare, hbefore, hoperand, hresult⟩ :=
        h.lastOperation_eq_ok hlast base.toSet b.spare b.set
      rw [← hresult]
      have hcount : s.countCandidates frames e b
          = .ok (((last.result before (sets last.operand) none).difference (e.excluded bound) none).size,
            { b with set := spare, spare := out, excluded := (e.excluded bound).members }) := by
        simp only [countCandidates, h.excludedVertices_eq, hbase, hlast, hbefore, hoperand, bind, Except.bind]
        cases honly : only? (e.excluded bound) with
        | some x => simp only [SetOp.countKept_eq, SetOp.result_of_only honly, pure, Except.pure]
        | none =>
            simp only [SetOp.countKept_eq, pure, Except.pure,
              VertexSet.checkedSub_hits fun _ => SetOp.mem_result_iff_keeps.symm]
      exact ⟨_, hcount⟩

end Search

end PatternCount
