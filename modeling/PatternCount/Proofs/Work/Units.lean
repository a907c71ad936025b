import Mathlib.Algebra.BigOperators.Group.Multiset.Basic
import Mathlib.Tactic.Abel
import PatternCount.Work.Handout

/-!
# The vertices in units

Where work is handed out, no vertex may be lost and none may be doubled. So the vertices that units hold are
counted with multiplicity: `WorkUnit.bag units` is the multiset of them, `span lo hi` that of a range, and
`WorkUnit.volume units` how many there are. A stolen range is cut into units that hold exactly its vertices
(`bag_units`), as long as vertex numbers fit into 32 bits; each of them holds some (`bounds_of_mem_units`),
and there is at least one.
-/

namespace PatternCount

/-! ## Ranges -/

/-- The vertices from `lo` up to `hi`, each once. -/
def span (lo hi : Nat) : Multiset Nat := ↑(List.range' lo (hi - lo))

@[simp] theorem card_span (lo hi : Nat) : (span lo hi).card = hi - lo := by
  rw [span, Multiset.coe_card, List.length_range']

theorem span_eq_zero {lo hi : Nat} (h : hi ≤ lo) : span lo hi = 0 := by
  rw [← Multiset.card_eq_zero, card_span, Nat.sub_eq_zero_of_le h]

theorem span_add_span {lo mid hi : Nat} (hlo : lo ≤ mid) (hhi : mid ≤ hi) :
    span lo mid + span mid hi = span lo hi := by
  have hmid : mid = lo + 1 * (mid - lo) := by omega
  rw [span, span, span, Multiset.coe_add]
  nth_rewrite 2 [hmid]
  rw [List.range'_append, show mid - lo + (hi - mid) = hi - lo by omega]

theorem span_zero (n : Nat) : span 0 n = ↑(List.range n) := by
  rw [span, Nat.sub_zero, List.range_eq_range']

theorem nodup_span (lo hi : Nat) : (span lo hi).Nodup :=
  Multiset.coe_nodup.mpr List.nodup_range'

/-! ## Sums over lists -/

/-- What a sum over a list gains when one element is replaced. -/
theorem sum_map_set {α M : Type} [AddCommMonoid M] (f : α → M) {a b : α} : ∀ {xs : List α} {i : Nat},
    xs[i]? = some a → ((xs.set i b).map f).sum + f a = (xs.map f).sum + f b
  | [], _, h => by cases h
  | x :: xs, 0, h => by
      obtain rfl := Option.some.inj h
      rw [List.set_cons_zero, List.map_cons, List.map_cons, List.sum_cons, List.sum_cons]
      abel
  | x :: xs, i + 1, h => by
      have ih : ((xs.set i b).map f).sum + f a = (xs.map f).sum + f b := sum_map_set f h
      rw [List.set_cons_succ, List.map_cons, List.map_cons, List.sum_cons, List.sum_cons, add_assoc, ih,
        ← add_assoc]

/-! ## Units -/

namespace WorkUnit

def bag (units : List WorkUnit) : Multiset Nat := ↑(units.flatMap vertices)

def volume (units : List WorkUnit) : Nat := (units.map size).sum

@[simp] theorem bag_nil : bag [] = 0 := rfl

@[simp] theorem bag_append (us vs : List WorkUnit) : bag (us ++ vs) = bag us + bag vs := by
  rw [bag, List.flatMap_append, ← Multiset.coe_add]
  rfl

theorem bag_singleton (u : WorkUnit) : bag [u] = span u.lo u.hi := by
  rw [bag, List.flatMap_singleton]
  rfl

theorem bag_cons (u : WorkUnit) (us : List WorkUnit) : bag (u :: us) = span u.lo u.hi + bag us := by
  rw [← bag_singleton, ← bag_append]
  rfl

@[simp] theorem volume_nil : volume [] = 0 := rfl

@[simp] theorem volume_cons (u : WorkUnit) (us : List WorkUnit) : volume (u :: us) = u.size + volume us := by
  rw [volume, List.map_cons, List.sum_cons]
  rfl

@[simp] theorem volume_append (us vs : List WorkUnit) : volume (us ++ vs) = volume us + volume vs := by
  rw [volume, List.map_append, List.sum_append]
  rfl

theorem volume_replicate (times : Nat) (u : WorkUnit) : volume (List.replicate times u) = times * u.size := by
  rw [volume, List.map_replicate, List.sum_replicate_nat]

theorem bag_flatMap {α : Type} (f : α → List WorkUnit) (xs : List α) :
    bag (xs.flatMap f) = (xs.map fun x => bag (f x)).sum := by
  induction xs with
  | nil => rfl
  | cons x xs ih => rw [List.flatMap_cons, bag_append, ih, List.map_cons, List.sum_cons]

theorem volume_flatMap {α : Type} (f : α → List WorkUnit) (xs : List α) :
    volume (xs.flatMap f) = (xs.map fun x => volume (f x)).sum := by
  induction xs with
  | nil => rfl
  | cons x xs ih => rw [List.flatMap_cons, volume_append, ih, List.map_cons, List.sum_cons]

theorem card_bag (us : List WorkUnit) : (bag us).card = volume us := by
  induction us with
  | nil => rfl
  | cons u us ih => rw [bag_cons, Multiset.card_add, card_span, ih, volume_cons, size]

theorem length_le_volume {us : List WorkUnit} (hus : ∀ u ∈ us, u.lo < u.hi) : us.length ≤ volume us := by
  induction us with
  | nil => exact Nat.le_refl 0
  | cons u us ih =>
      obtain ⟨hu, hus⟩ := List.forall_mem_cons.mp hus
      have := ih hus
      rw [List.length_cons, volume_cons, size]
      omega

/-- Units that hold vertices each are nothing only if there are none. -/
theorem eq_nil_of_volume_eq_zero {us : List WorkUnit} (hus : ∀ u ∈ us, u.lo < u.hi) (h : volume us = 0) :
    us = [] :=
  List.length_eq_zero_iff.mp (Nat.le_zero.mp (h ▸ length_le_volume hus))

end WorkUnit

/-! ## Cutting a range -/

namespace Call

open WorkUnit

/-- A unit keeps the bounds that it is made with if they are vertex numbers. -/
theorem unitOf_eq {lo hi owner : Nat} (hlo : lo < 2 ^ 32) (hhi : hi < 2 ^ 32) :
    unitOf lo hi owner = ⟨lo, hi, owner⟩ := by
  have hsize : 0x100000000 = 2 ^ 32 := rfl
  rw [unitOf, Word.truncate32, Word.truncate32, hsize, Nat.mod_eq_of_lt hlo, Nat.mod_eq_of_lt hhi]

theorem le_ceilDiv_mul {a b : Nat} (hb : 0 < b) : a ≤ Word.ceilDiv a b * b := by
  have hdiv := Nat.div_add_mod a b
  have hmod := Nat.mod_lt a hb
  unfold Word.ceilDiv
  split
  · rw [Nat.add_zero, Nat.mul_comm]
    omega
  · rw [Nat.add_mul, Nat.one_mul, Nat.mul_comm]
    omega

theorem ceilDiv_mul_lt {a b : Nat} (hb : 0 < b) : Word.ceilDiv a b * b < a + b := by
  have hdiv := Nat.div_add_mod a b
  have hmod := Nat.mod_lt a hb
  unfold Word.ceilDiv
  split
  · rw [Nat.add_zero, Nat.mul_comm]
    omega
  · rw [Nat.add_mul, Nat.one_mul, Nat.mul_comm]
    omega

theorem ceilDiv_pos {a b : Nat} (hb : 0 < b) (ha : 0 < a) : 0 < Word.ceilDiv a b := by
  apply Nat.pos_of_ne_zero
  intro h
  have hle := le_ceilDiv_mul (a := a) hb
  rw [h, Nat.zero_mul] at hle
  omega

section Cutting

variable {chunkSize hi owner : Nat}

theorem next_chunk_lt {count lo : Nat} (h : lo + count * chunkSize < hi) (hcount : 0 < count) :
    lo + chunkSize + (count - 1) * chunkSize < hi := by
  obtain ⟨k, rfl⟩ := Nat.exists_eq_succ_of_ne_zero (Nat.ne_of_gt hcount)
  rw [Nat.succ_mul] at h
  rw [Nat.succ_sub_one]
  omega

/-- If the chunks reach the end and all but the last stay before it, the units hold the range. -/
theorem bag_cut (hhi : hi < 2 ^ 32) : ∀ {count lo : Nat}, hi ≤ lo + count * chunkSize →
    (0 < count → lo + (count - 1) * chunkSize < hi) → bag (cut chunkSize hi owner count lo) = span lo hi
  | 0, lo, hle, _ => by
      rw [Nat.zero_mul, Nat.add_zero] at hle
      exact (span_eq_zero hle).symm
  | count + 1, lo, hle, hlt => by
      have hlt := hlt count.succ_pos
      rw [Nat.add_sub_cancel] at hlt
      rw [Nat.add_mul, Nat.one_mul] at hle
      have hlo : lo < hi := Nat.lt_of_le_of_lt (Nat.le_add_right lo _) hlt
      rw [cut, unitOf_eq (Nat.lt_trans hlo hhi) (Nat.lt_of_le_of_lt (Nat.min_le_right _ _) hhi), bag_cons,
        bag_cut hhi (by omega) (next_chunk_lt hlt)]
      show span lo (min (lo + chunkSize) hi) + span (lo + chunkSize) hi = span lo hi
      rcases Nat.le_total (lo + chunkSize) hi with h | h
      · rw [Nat.min_eq_left h, span_add_span (Nat.le_add_right lo _) h]
      · rw [Nat.min_eq_right h, span_eq_zero h, add_zero]

/-- Every unit holds some vertices of the range, and no more than a chunk. -/
theorem bounds_of_mem_cut (hchunk : 0 < chunkSize) (hhi : hi < 2 ^ 32) : ∀ {count lo : Nat},
    (0 < count → lo + (count - 1) * chunkSize < hi) → ∀ u ∈ cut chunkSize hi owner count lo,
      u.owner = owner ∧ lo ≤ u.lo ∧ u.lo < u.hi ∧ u.hi ≤ hi ∧ u.size ≤ chunkSize
  | 0, _, _, _, hu => by cases hu
  | count + 1, lo, hlt, u, hu => by
      have hlt := hlt count.succ_pos
      rw [Nat.add_sub_cancel] at hlt
      have hlo : lo < hi := Nat.lt_of_le_of_lt (Nat.le_add_right lo _) hlt
      rw [cut, unitOf_eq (Nat.lt_trans hlo hhi) (Nat.lt_of_le_of_lt (Nat.min_le_right _ _) hhi)] at hu
      rcases List.mem_cons.mp hu with rfl | hu
      · refine ⟨rfl, Nat.le_refl lo, ?_, Nat.min_le_right _ _, ?_⟩
        · exact Nat.lt_min.mpr ⟨Nat.lt_add_of_pos_right hchunk, hlo⟩
        · exact Nat.sub_le_of_le_add (Nat.add_comm chunkSize lo ▸ Nat.min_le_left _ _)
      · obtain ⟨howner, hle, hrest⟩ := bounds_of_mem_cut hchunk hhi (next_chunk_lt hlt) u hu
        exact ⟨howner, Nat.le_trans (Nat.le_add_right lo _) hle, hrest⟩

/-- The last chunk of a range starts before its end. -/
theorem last_chunk_lt {lo : Nat} (hchunk : 0 < chunkSize) (h : 0 < Word.ceilDiv (hi - lo) chunkSize) :
    lo + (Word.ceilDiv (hi - lo) chunkSize - 1) * chunkSize < hi := by
  have hlt := ceilDiv_mul_lt (a := hi - lo) hchunk
  rw [Nat.sub_mul, Nat.one_mul]
  have hle := Nat.le_mul_of_pos_left chunkSize h
  omega

theorem bag_units {lo : Nat} (hchunk : 0 < chunkSize) (hhi : hi < 2 ^ 32) :
    bag (units chunkSize lo hi owner) = span lo hi := by
  refine bag_cut hhi ?_ (last_chunk_lt hchunk)
  have hle := le_ceilDiv_mul (a := hi - lo) hchunk
  omega

theorem bounds_of_mem_units {lo : Nat} (hchunk : 0 < chunkSize) (hhi : hi < 2 ^ 32) :
    ∀ u ∈ units chunkSize lo hi owner,
      u.owner = owner ∧ lo ≤ u.lo ∧ u.lo < u.hi ∧ u.hi ≤ hi ∧ u.size ≤ chunkSize :=
  bounds_of_mem_cut hchunk hhi (last_chunk_lt hchunk)

theorem units_ne_nil {lo : Nat} (hchunk : 0 < chunkSize) (hlo : lo < hi) :
    units chunkSize lo hi owner ≠ [] := by
  obtain ⟨k, hk⟩ := Nat.exists_eq_succ_of_ne_zero
    (Nat.ne_of_gt (ceilDiv_pos hchunk (Nat.sub_pos_of_lt hlo)))
  rw [units, hk]
  exact List.cons_ne_nil _ _

end Cutting

/-! ## How much is stolen -/

theorem chunksToSteal_pos (remaining chunkSize : Nat) {stealBatch : Nat} (hbatch : 0 < stealBatch) :
    0 < chunksToSteal remaining chunkSize stealBatch :=
  Nat.lt_min.mpr ⟨Nat.lt_of_lt_of_le Nat.zero_lt_one (Nat.le_max_right _ _), hbatch⟩

theorem chunksToSteal_le {remaining chunkSize : Nat} (stealBatch : Nat) (hchunk : 0 < chunkSize)
    (hremaining : 0 < remaining) :
    chunksToSteal remaining chunkSize stealBatch ≤ Word.ceilDiv remaining chunkSize := by
  have hceil := ceilDiv_pos hchunk hremaining
  have hhalf : Word.ceilDiv (Word.ceilDiv remaining chunkSize) 2 ≤ Word.ceilDiv remaining chunkSize := by
    generalize Word.ceilDiv remaining chunkSize = chunks at hceil ⊢
    unfold Word.ceilDiv
    split <;> omega
  exact Nat.le_trans (Nat.min_le_left _ _) (Nat.max_le.mpr ⟨hhalf, hceil⟩)

/-- What is claimed of another slice goes past its end by less than a chunk. -/
theorem chunksToSteal_mul_lt_add {remaining chunkSize : Nat} (stealBatch : Nat) (hchunk : 0 < chunkSize)
    (hremaining : 0 < remaining) :
    chunksToSteal remaining chunkSize stealBatch * chunkSize < remaining + chunkSize :=
  Nat.lt_of_le_of_lt (Nat.mul_le_mul_right chunkSize (chunksToSteal_le stealBatch hchunk hremaining))
    (ceilDiv_mul_lt hchunk)

/-- What is claimed of another slice is a word: a chunk is one, and more than a chunk is claimed only where
there are more vertices than a chunk has. -/
theorem chunksToSteal_mul_lt {remaining chunkSize : Nat} (stealBatch : Nat) (hchunk : 0 < chunkSize)
    (hsize : chunkSize < Word.size) (hremaining : 0 < remaining) (hsmall : remaining < 2 ^ 32) :
    chunksToSteal remaining chunkSize stealBatch * chunkSize < Word.size := by
  rcases Nat.lt_or_ge chunkSize remaining with h | h
  · have hlt := chunksToSteal_mul_lt_add stealBatch hchunk hremaining
    have hword : Word.size = 2 ^ 64 := rfl
    omega
  · have hone : Word.ceilDiv remaining chunkSize ≤ 1 := by
      have hlt := ceilDiv_mul_lt (a := remaining) hchunk
      by_contra hgt
      have := Nat.mul_le_mul_right chunkSize (Nat.lt_of_not_le hgt)
      omega
    have hle := Nat.mul_le_mul_right chunkSize (Nat.le_trans (chunksToSteal_le stealBatch hchunk hremaining) hone)
    omega

end Call

end PatternCount
