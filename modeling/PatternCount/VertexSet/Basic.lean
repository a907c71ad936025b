import PatternCount.Fault

/-!
# Vertex sets

Vertices are numbered from zero, and a vertex is its number. A `VertexSet` is a strictly ascending array of
vertices. `VertexSet.ofArray` makes one of a plain array: it accepts the ascending ones and no others.
Membership and position go by bisection (`lowerBound`), and cutting a set at a bound (`below`, `above`) keeps
a run of its members. `VertexSet.Run` is such a run before its members are copied.
-/

namespace PatternCount

def Ascending (xs : List Nat) : Prop := xs.Pairwise (· < ·)

/-- Decides whether the first `n` elements ascend, by comparing neighbours from the last of them on. -/
def ascendsTo (xs : Array Nat) : (n : Nat) → n ≤ xs.size → Bool
  | n + 2, h => xs[n] < xs[n + 1] && ascendsTo xs (n + 1) (Nat.le_of_succ_le h)
  | _, _ => true

theorem ascendsTo_iff {xs : Array Nat} : ∀ {n : Nat} (h : n ≤ xs.size),
    ascendsTo xs n h = true ↔ Ascending (xs.toList.take n)
  | 0, _ => by simp [ascendsTo, Ascending]
  | 1, h => by
      rw [List.take_succ_eq_append_getElem (by simp; omega)]
      simp [ascendsTo, Ascending]
  | n + 2, h => by
      have hn : n < xs.toList.length := by simp; omega
      have hs : n + 1 < xs.toList.length := by simp; omega
      rw [ascendsTo, Bool.and_eq_true, decide_eq_true_eq, ascendsTo_iff (Nat.le_of_succ_le h),
        List.take_succ_eq_append_getElem hs, Ascending, Ascending, List.pairwise_append]
      simp only [List.pairwise_cons, List.not_mem_nil, List.mem_singleton, forall_eq, Array.getElem_toList]
      constructor
      · rintro ⟨hlt, ha⟩
        refine ⟨ha, by simp, ?_⟩
        intro x hx
        rw [List.take_succ_eq_append_getElem hn, List.pairwise_append] at ha
        rw [List.take_succ_eq_append_getElem hn, List.mem_append] at hx
        rcases hx with hx | hx
        · exact Nat.lt_trans (by simpa using ha.2.2 x hx) hlt
        · simpa [List.mem_singleton.mp hx] using hlt
      · rintro ⟨ha, -, hlt⟩
        refine ⟨?_, ha⟩
        have := hlt xs[n]
        rw [List.take_succ_eq_append_getElem hn] at this
        simpa using this

instance (xs : Array Nat) : Decidable (Ascending xs.toList) :=
  decidable_of_iff (ascendsTo xs xs.size (Nat.le_refl _) = true) (by rw [ascendsTo_iff, ← Array.length_toList, List.take_length])

/-- A strictly ascending array of vertices. -/
structure VertexSet where
  members : Array Nat
  ascending : Ascending members.toList
deriving DecidableEq

namespace VertexSet

def empty : VertexSet := ⟨#[], List.Pairwise.nil⟩

instance : Inhabited VertexSet := ⟨empty⟩

def ofArray (members : Array Nat) : Except Fault VertexSet :=
  if h : Ascending members.toList then .ok ⟨members, h⟩ else .error .unsortedSet

def upTo (n : Nat) : VertexSet :=
  ⟨Array.range n, by simp [Ascending, Array.toList_range, List.pairwise_lt_range]⟩

/-! ## Sets from lists in any order -/

/-- The list without the elements that repeat the one before them. -/
def dropRepeats : List Nat → List Nat
  | x :: y :: rest => if x = y then dropRepeats (y :: rest) else x :: dropRepeats (y :: rest)
  | xs => xs

theorem mem_dropRepeats : ∀ {xs : List Nat} {z : Nat}, z ∈ dropRepeats xs ↔ z ∈ xs
  | [], _ => Iff.rfl
  | [_], _ => Iff.rfl
  | x :: y :: rest, z => by
      rw [dropRepeats]
      split
      · next h =>
          rw [mem_dropRepeats, List.mem_cons (a := z) (b := x)]
          exact ⟨Or.inr, fun h' => h'.elim (fun hz => by simp [hz, h]) id⟩
      · rw [List.mem_cons, List.mem_cons (b := x), mem_dropRepeats]

theorem ascending_dropRepeats : ∀ {xs : List Nat}, xs.Pairwise (· ≤ ·) → Ascending (dropRepeats xs)
  | [], _ => List.Pairwise.nil
  | [_], _ => List.pairwise_singleton ..
  | x :: y :: rest, h => by
      rw [List.pairwise_cons] at h
      rw [dropRepeats]
      split
      · exact ascending_dropRepeats h.2
      · next hne =>
          refine List.pairwise_cons.mpr ⟨?_, ascending_dropRepeats h.2⟩
          intro z hz
          show x < z
          have hxy : x ≤ y := h.1 y (List.mem_cons_self ..)
          have hyz : y ≤ z := by
            rcases List.mem_cons.mp (mem_dropRepeats.mp hz) with rfl | hz
            · exact Nat.le_refl _
            · exact (List.pairwise_cons.mp h.2).1 z hz
          omega

/-- The set of the listed vertices, which may stand in any order and be repeated. -/
def ofUnsorted (xs : List Nat) : VertexSet where
  members := (dropRepeats (xs.mergeSort (· ≤ ·))).toArray
  ascending := by
    refine ascending_dropRepeats ?_
    have : (xs.mergeSort (· ≤ ·)).Pairwise fun a b => decide (a ≤ b) = true :=
      List.pairwise_mergeSort (fun a b c => by simpa using Nat.le_trans)
        (fun a b => by simpa using Nat.le_total a b) xs
    simpa using this

/-! ## Reading a set -/

def toList (s : VertexSet) : List Nat := s.members.toList

def size (s : VertexSet) : Nat := s.members.size

def isEmpty (s : VertexSet) : Bool := s.members.isEmpty

def get? (s : VertexSet) (index : Nat) : Option Nat := s.members[index]?

/-! ## Bisection -/

/-- The first index from `lo` up to `hi` whose element is not below `x`, or `hi`; the elements in between
are taken to be ascending. -/
def lowerBound (xs : Array Nat) (x : Nat) (lo hi : Nat) (h : hi ≤ xs.size) : Nat :=
  if hlt : lo < hi then
    let mid := lo + (hi - lo) / 2
    if xs[mid] < x then lowerBound xs x (mid + 1) hi h
    else lowerBound xs x lo mid (by omega)
  else
    lo
termination_by hi - lo

def rank (s : VertexSet) (x : Nat) : Nat :=
  lowerBound s.members x 0 s.members.size (Nat.le_refl _)

def position? (s : VertexSet) (v : Nat) : Option Nat :=
  if s.members[s.rank v]? = some v then some (s.rank v) else none

def contains (s : VertexSet) (v : Nat) : Bool := (s.position? v).isSome

/-! ## Runs of a set -/

theorem ascending_extract (s : VertexSet) (start stop : Nat) :
    Ascending (s.members.extract start stop).toList := by
  rw [Array.toList_extract]
  exact (s.ascending.sublist (List.drop_sublist ..)).sublist (List.take_sublist ..)

def run (s : VertexSet) (start stop : Nat) : VertexSet :=
  ⟨s.members.extract start stop, s.ascending_extract start stop⟩

def below (s : VertexSet) (x : Nat) : VertexSet := s.run 0 (s.rank x)

def above (s : VertexSet) (x : Nat) : VertexSet := s.run (s.rank (x + 1)) s.size

/-- The members of `set` whose index is from `start` up to `stop`, none of them being copied. -/
structure Run where
  set : VertexSet
  start : Nat
  stop : Nat
  stop_le : stop ≤ set.size

namespace Run

def whole (s : VertexSet) : Run := ⟨s, 0, s.size, Nat.le_refl _⟩

variable (r : Run)

def toSet : VertexSet := r.set.run r.start r.stop

def size : Nat := r.stop - r.start

@[simp]
theorem size_toSet : r.toSet.size = r.size := by
  have := r.stop_le
  simp only [VertexSet.size] at this
  simp only [toSet, run, VertexSet.size, size, Array.size_extract]
  omega

@[simp]
theorem toSet_whole (s : VertexSet) : (whole s).toSet = s := by
  simp [toSet, run, whole, VertexSet.size]

def contains (v : Nat) : Bool := (r.set.position? v).any fun i => r.start ≤ i && i < r.stop

def below (x : Nat) : Run :=
  { r with
    stop := min r.stop (r.set.rank x)
    stop_le := Nat.le_trans (Nat.min_le_left ..) r.stop_le }

def above (x : Nat) : Run := { r with start := max r.start (r.set.rank (x + 1)) }

end Run

/-- The members between braces, in order. -/
def render (s : VertexSet) : String :=
  "\x7b" ++ ", ".intercalate (s.toList.map Nat.repr) ++ "\x7d"

end VertexSet

end PatternCount
