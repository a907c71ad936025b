import PatternCount.Proofs.Outcome
import PatternCount.Proofs.Work.Units

/-!
# Even splits

The vertices from `0` up to `n` are split at `splitPoint n parts k`, the floor of `n * k / parts`. The points ascend
from `0` to `n`, two neighbours are the mean apart, rounded down or up (`size_part`), and so the parts follow one upon
the other without a gap (`flatMap_parts`). A split among all workers refines the split among the ranks, since the
first worker of a rank starts where the rank does (`splitPoint_refines`).

The points are computed in words: a product of two words fits in a double word, and a point is no larger than `n`.
`staticSplitInWords` is the split with every bound of a word looked at, and `staticSplitInWords_eq` says that none of
them is met.
-/

namespace PatternCount

/-! ## Points of a split -/

/-- Where part `k` starts if `n` vertices are split evenly among `parts`. -/
def splitPoint (n parts k : Nat) : Nat := n * k / parts

theorem staticSplit_eq (n : Nat) (l : Layout) (g : Nat) :
    staticSplit n l g = (splitPoint n l.workers g, splitPoint n l.workers (g + 1)) := rfl

section Points

variable {n parts k : Nat}

theorem splitPoint_zero : splitPoint n parts 0 = 0 := by
  rw [splitPoint, Nat.mul_zero, Nat.zero_div]

theorem splitPoint_last (hparts : 0 < parts) : splitPoint n parts parts = n := Nat.mul_div_cancel n hparts

theorem splitPoint_mono {j : Nat} (h : j ≤ k) : splitPoint n parts j ≤ splitPoint n parts k :=
  Nat.div_le_div_right (Nat.mul_le_mul_left n h)

theorem splitPoint_le (h : k ≤ parts) : splitPoint n parts k ≤ n :=
  Nat.div_le_of_le_mul (Nat.mul_comm parts n ▸ Nat.mul_le_mul_left n h)

/-- Where a group of `each` parts starts, the part with which it begins does. -/
theorem splitPoint_refines {groups each : Nat} (heach : 0 < each) :
    splitPoint n (groups * each) (k * each) = splitPoint n groups k := by
  rw [splitPoint, splitPoint, ← Nat.mul_assoc, Nat.mul_div_mul_right _ _ heach]

/-- A part has the mean size, rounded down or up. -/
theorem size_part (hparts : 0 < parts) :
    splitPoint n parts (k + 1) - splitPoint n parts k = n / parts ∨
      splitPoint n parts (k + 1) - splitPoint n parts k = Word.ceilDiv n parts := by
  have hfloor : splitPoint n parts k + n / parts ≤ splitPoint n parts (k + 1) := by
    rw [splitPoint, splitPoint, Nat.mul_succ, Nat.le_div_iff_mul_le hparts, Nat.add_mul]
    exact Nat.add_le_add (Nat.div_mul_le_self _ _) (Nat.div_mul_le_self _ _)
  have hceil : splitPoint n parts (k + 1) ≤ splitPoint n parts k + Word.ceilDiv n parts := by
    calc splitPoint n parts (k + 1) = (n * k + n) / parts := rfl
      _ ≤ (n * k + Word.ceilDiv n parts * parts) / parts :=
          Nat.div_le_div_right (Nat.add_le_add_left (Call.le_ceilDiv_mul hparts) _)
      _ = splitPoint n parts k + Word.ceilDiv n parts := Nat.add_mul_div_right _ _ hparts
  have hle : Word.ceilDiv n parts ≤ n / parts + 1 := by
    unfold Word.ceilDiv
    split <;> omega
  omega

end Points

/-! ## Parts -/

/-- The vertices of a slice, in ascending order. -/
def sliceVertices (slice : Nat × Nat) : List Nat := List.range' slice.1 (slice.2 - slice.1)

/-- Ranges between ascending points make one range, from the first of the points to the last. -/
theorem flatMap_parts {f : Nat → Nat} (hmono : ∀ {j k}, j ≤ k → f j ≤ f k) (first count : Nat) :
    ((List.range count).flatMap fun k => sliceVertices (f (first + k), f (first + k + 1)))
      = sliceVertices (f first, f (first + count)) := by
  induction count with
  | zero =>
      rw [List.range_zero, List.flatMap_nil, sliceVertices, Nat.add_zero, Nat.sub_self]
      rfl
  | succ count ih =>
      have hlast : f (first + count) ≤ f (first + count + 1) := hmono (Nat.le_succ _)
      have hfirst : f first ≤ f (first + count) := hmono (Nat.le_add_right first count)
      have hpoint : f (first + count) = f first + (f (first + count) - f first) := by omega
      have hsizes : f (first + count) - f first + (f (first + count + 1) - f (first + count))
          = f (first + count + 1) - f first := by omega
      rw [List.range_succ, List.flatMap_append, ih, List.flatMap_singleton, ← Nat.add_assoc]
      simp only [sliceVertices]
      rw [← hsizes]
      nth_rewrite 2 [hpoint]
      exact List.range'_append_1

/-! ## In words -/

namespace Word

/-- One more than the largest double word. -/
def doubleSize : Nat := size * size

def checkedDoubleAdd (a b : Nat) : Except Fault Nat := if a + b < doubleSize then .ok (a + b) else .error .addOverflow

def checkedDoubleMul (a b : Nat) : Except Fault Nat := if a * b < doubleSize then .ok (a * b) else .error .mulOverflow

/-- The low word of a double word. -/
def truncate64 (a : Nat) : Nat := a % size

end Word

/-- The slice of a worker as it is computed: the number of workers is a word, the products are double words, and the
bounds of the slice are cut back to words. -/
def staticSplitInWords (n : Nat) (l : Layout) (g : Nat) : Except Fault (Nat × Nat) := do
  let workers ← Word.checkedMul l.ranks l.threadsPerRank
  let before ← Word.checkedDoubleMul n g
  let upTo ← Word.checkedDoubleMul n (← Word.checkedDoubleAdd g 1)
  return (Word.truncate64 (before / workers), Word.truncate64 (upTo / workers))

section Words

variable {n : Nat} {l : Layout} {g : Nat}

/-- No sum or product is too large for where it is kept, and no bound loses a bit. -/
theorem staticSplitInWords_eq (hn : n < Word.size) (hworkers : l.workers < Word.size) (hg : g < l.workers) :
    staticSplitInWords n l g = .ok (staticSplit n l g) := by
  have hproduct : ∀ k, k ≤ l.workers → n * k < Word.doubleSize := fun k hk =>
    Nat.mul_lt_mul'' hn (Nat.lt_of_le_of_lt hk hworkers)
  have hpoint : ∀ k, k ≤ l.workers → Word.truncate64 (n * k / l.workers) = splitPoint n l.workers k := fun k hk =>
    Nat.mod_eq_of_lt (Nat.lt_of_le_of_lt (splitPoint_le hk) hn)
  have hcount : Word.checkedMul l.ranks l.threadsPerRank = .ok l.workers := if_pos hworkers
  have hbefore : Word.checkedDoubleMul n g = .ok (n * g) := if_pos (hproduct g (Nat.le_of_lt hg))
  have hnext : Word.checkedDoubleAdd g 1 = .ok (g + 1) :=
    if_pos (Nat.lt_of_lt_of_le (Nat.lt_of_le_of_lt hg hworkers) (by decide))
  have hupTo : Word.checkedDoubleMul n (g + 1) = .ok (n * (g + 1)) := if_pos (hproduct (g + 1) hg)
  rw [staticSplitInWords, hcount]
  show (do
    let before ← Word.checkedDoubleMul n g
    let upTo ← Word.checkedDoubleMul n (← Word.checkedDoubleAdd g 1)
    return (Word.truncate64 (before / l.workers), Word.truncate64 (upTo / l.workers))) = _
  rw [hbefore, hnext]
  show (do
    let upTo ← Word.checkedDoubleMul n (g + 1)
    return (Word.truncate64 (n * g / l.workers), Word.truncate64 (upTo / l.workers))) = _
  rw [hupTo, staticSplit_eq, ← hpoint g (Nat.le_of_lt hg), ← hpoint (g + 1) hg]
  rfl

end Words

/-! ## Ranks -/

namespace Coordinator

variable {c : Coordinator} {rank worker : Nat}

theorem assignedRange_eq_ok (hrank : rank < c.layout.ranks) (hworker : worker < c.layout.threadsPerRank) :
    c.assignedRange rank worker
      = .ok (staticSplit c.vertexCount c.layout (rank * c.layout.threadsPerRank + worker)) := by
  rw [assignedRange, globalWorker, if_neg (Nat.not_le.mpr hrank), if_neg (Nat.not_le.mpr hworker)]
  rfl

/-- The slices of the workers of a rank make the slice that the rank has in a split among ranks. -/
theorem assignedRanges_eq_ok (hthreads : 0 < c.layout.threadsPerRank) (hrank : rank < c.layout.ranks) :
    ∃ slices, (List.range c.layout.threadsPerRank).mapM (c.assignedRange rank) = .ok slices ∧
      slices.flatMap sliceVertices = sliceVertices (splitPoint c.vertexCount c.layout.ranks rank,
        splitPoint c.vertexCount c.layout.ranks (rank + 1)) := by
  refine ⟨_, mapM_eq_ok fun worker hworker => assignedRange_eq_ok hrank (List.mem_range.mp hworker), ?_⟩
  have hparts := flatMap_parts (f := splitPoint c.vertexCount c.layout.workers) splitPoint_mono
    (rank * c.layout.threadsPerRank) c.layout.threadsPerRank
  rw [← Nat.succ_mul, Layout.workers, splitPoint_refines hthreads, splitPoint_refines hthreads] at hparts
  rw [List.flatMap_map]
  exact hparts

end Coordinator

/-! ## Even splits -/

/-- The slices of the workers tile the vertices, each following upon the one before, and hold the mean number of them,
rounded down or up. The slices of the workers of one rank make a range, of the mean size of a rank, rounded down or
up. That the slices are computed in words makes no difference to them. -/
theorem staticSplit_tiles {n : Nat} {l : Layout} (hn : n < Word.size) (hranks : 0 < l.ranks)
    (hthreads : 0 < l.threadsPerRank) (hworkers : l.workers < Word.size) :
    (∀ g < l.workers, staticSplitInWords n l g = .ok (staticSplit n l g)) ∧
    ((staticSplit n l 0).1 = 0 ∧ (staticSplit n l (l.workers - 1)).2 = n ∧
      ∀ g, (staticSplit n l g).1 ≤ (staticSplit n l g).2 ∧ (staticSplit n l (g + 1)).1 = (staticSplit n l g).2) ∧
    ((List.range l.workers).flatMap fun g => sliceVertices (staticSplit n l g)) = List.range n ∧
    (∀ g, (staticSplit n l g).2 - (staticSplit n l g).1 = n / l.workers ∨
      (staticSplit n l g).2 - (staticSplit n l g).1 = Word.ceilDiv n l.workers) ∧
    ∀ rank < l.ranks,
      (∀ c : Coordinator, c.vertexCount = n → c.layout = l →
        ∃ slices, (List.range l.threadsPerRank).mapM (c.assignedRange rank) = .ok slices ∧
          slices.flatMap sliceVertices = sliceVertices (n * rank / l.ranks, n * (rank + 1) / l.ranks)) ∧
      (n * (rank + 1) / l.ranks - n * rank / l.ranks = n / l.ranks ∨
        n * (rank + 1) / l.ranks - n * rank / l.ranks = Word.ceilDiv n l.ranks) := by
  have hpos : 0 < l.workers := Nat.mul_pos hranks hthreads
  refine ⟨fun g hg => staticSplitInWords_eq hn hworkers hg, ⟨splitPoint_zero, ?_, fun g => ⟨?_, rfl⟩⟩, ?_,
    fun g => size_part hpos, fun rank hrank => ⟨?_, size_part hranks⟩⟩
  · rw [staticSplit_eq, Nat.sub_add_cancel hpos]
    exact splitPoint_last hpos
  · exact splitPoint_mono (Nat.le_succ g)
  · have hparts := flatMap_parts (f := splitPoint n l.workers) splitPoint_mono 0 l.workers
    rw [Nat.zero_add, splitPoint_zero, splitPoint_last hpos] at hparts
    simp only [Nat.zero_add] at hparts
    exact hparts.trans (by rw [sliceVertices, List.range_eq_range', Nat.sub_zero])
  · rintro c rfl rfl
    exact Coordinator.assignedRanges_eq_ok hthreads hrank

/-- The largest word among three ranks of two workers: the last slice is as long as the others and one more, and no
vertex is left out. -/
theorem staticSplit_tiles_largest : Word.max < Word.size ∧ 0 < 3 ∧ 0 < 2 ∧ (⟨3, 2⟩ : Layout).workers < Word.size ∧
    staticSplitInWords Word.max ⟨3, 2⟩ 0 = .ok (0, 3074457345618258602) ∧
    staticSplitInWords Word.max ⟨3, 2⟩ 5 = .ok (15372286728091293012, 18446744073709551615) ∧
    ((List.range 6).flatMap fun g => sliceVertices (staticSplit Word.max ⟨3, 2⟩ g)) = List.range Word.max := by
  obtain ⟨hwords, -, htiles, -⟩ :=
    staticSplit_tiles (n := Word.max) (l := ⟨3, 2⟩) (by decide) (by decide) (by decide) (by decide)
  exact ⟨by decide, by decide, by decide, by decide, hwords 0 (by decide), hwords 5 (by decide), htiles⟩

end PatternCount
