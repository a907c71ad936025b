import Mathlib.Data.List.Forall2
import PatternCount.Json.Shape
import PatternCount.Proofs.Json.Numerals

/-!
# Ways of writing a shape

One record can be written as many objects: its fields stand in any order, fields of other names may stand
among them, and some may be left out. `Json.Arranges` is the relation between what the fields are to be and
such an object, and `fields?_arranges` says that a reader finds exactly these. The relations for a list, for a
value that may be missing and for a field with a default take the relation for what is inside, and each
comes with the reader that undoes it.
-/

namespace PatternCount.Json

/-! ## Records -/

/-- Fields as an object holds them. -/
def named (fields : List (String × Json)) : List (Option String × Json) := fields.map fun (k, v) => (some k, v)

theorem record_eq (fields : List (String × Json)) : record fields = .obj (named fields) := rfl

/-- The fields that are written where each of the names has a value or none. -/
def given (known : List (String × Option Json)) : List (String × Json) :=
  known.filterMap fun (name, v?) => v?.map (name, ·)

/-- An object with the known fields that have a value, in any order and among any fields of other names. -/
def Arranges (known : List (String × Option Json)) (v : Json) : Prop :=
  ∃ fields extra, fields.Perm (given known ++ extra) ∧ (∀ f ∈ extra, f.1 ∉ known.map Prod.fst)
    ∧ v = record fields

theorem arranges_given (known : List (String × Option Json)) : Arranges known (record (given known)) :=
  ⟨given known, [], by rw [List.append_nil], nofun, rfl⟩

section Values

variable {name : String}

theorem valuesOf_append (fields others : List (String × Json)) :
    valuesOf name (named (fields ++ others)) = valuesOf name (named fields) ++ valuesOf name (named others) := by
  rw [named, List.map_append, valuesOf, List.filterMap_append]
  rfl

theorem valuesOf_cons (k : String) (v : Json) (fields : List (String × Json)) :
    valuesOf name (named ((k, v) :: fields))
      = if k = name then v :: valuesOf name (named fields) else valuesOf name (named fields) := by
  by_cases hk : k = name
  · rw [if_pos hk, hk]
    simp [valuesOf, named]
  · rw [if_neg hk]
    simp [valuesOf, named, hk]

theorem valuesOf_eq_nil : ∀ {fields : List (String × Json)}, (∀ f ∈ fields, f.1 ≠ name) →
    valuesOf name (named fields) = []
  | [], _ => rfl
  | (k, v) :: fields, h => by
      obtain ⟨hk, hrest⟩ := List.forall_mem_cons.mp h
      rw [valuesOf_cons, if_neg hk, valuesOf_eq_nil hrest]

theorem name_mem_of_given {known : List (String × Option Json)} {f : String × Json} (h : f ∈ given known) :
    f.1 ∈ known.map Prod.fst := by
  obtain ⟨⟨k, v?⟩, hmem, hf⟩ := List.mem_filterMap.mp h
  obtain ⟨v, -, rfl⟩ := Option.map_eq_some_iff.mp hf
  exact List.mem_map_of_mem hmem

/-- A name that is known once has its value, if it has one. -/
theorem valuesOf_given {v? : Option Json} : ∀ {known : List (String × Option Json)},
    (known.map Prod.fst).Nodup → (name, v?) ∈ known → valuesOf name (named (given known)) = v?.toList
  | (k, w?) :: known, hnodup, hmem => by
      obtain ⟨hk, hrest⟩ := List.nodup_cons.mp hnodup
      have hgiven : given ((k, w?) :: known) = (w?.map (k, ·)).toList ++ given known := by
        cases w? <;> rfl
      rw [hgiven, valuesOf_append]
      rcases List.mem_cons.mp hmem with heq | hmem
      · cases heq
        have htail : valuesOf name (named (given known)) = [] := by
          refine valuesOf_eq_nil ?_
          rintro f hf rfl
          exact hk (name_mem_of_given hf)
        rw [htail, List.append_nil]
        cases v? with
        | none => rfl
        | some v =>
            show valuesOf name (named [(name, v)]) = [v]
            rw [valuesOf_cons, if_pos rfl]
            rfl
      · have hne : k ≠ name := by
          rintro rfl
          exact hk (List.mem_map.mpr ⟨_, hmem, rfl⟩)
        have hhead : valuesOf name (named (w?.map (k, ·)).toList) = [] := by
          refine valuesOf_eq_nil ?_
          intro f hf
          obtain ⟨w, -, rfl⟩ := Option.map_eq_some_iff.mp (Option.mem_toList.mp hf)
          exact hne
        rw [hhead, List.nil_append, valuesOf_given hrest hmem]

end Values

/-- A list with the values of an option, in any order, is the list of these values. -/
theorem eq_toList_of_perm {α : Type} {o : Option α} {xs : List α} (h : xs.Perm o.toList) : xs = o.toList := by
  cases o with
  | none => exact List.perm_nil.mp h
  | some a => exact List.perm_singleton.mp h

theorem field?_eq {name : String} {fields : List (Option String × Json)} {v? : Option Json}
    (h : valuesOf name fields = v?.toList) : field? name fields = some v? := by
  cases v? <;> rw [field?, h] <;> rfl

/-- To leave out a field does not change the others. -/
theorem field?_filter_ne {name other : String} {fields : List (Option String × Json)} (h : name ≠ other) :
    field? name (fields.filter (·.1 ≠ some other)) = field? name fields := by
  have hvalues : valuesOf name (fields.filter (·.1 ≠ some other)) = valuesOf name fields := by
    rw [valuesOf, List.filterMap_filter]
    refine List.filterMap_congr fun f _ => ?_
    by_cases hf : f.1 = some name
    · simp [hf, h]
    · simp [hf]
  rw [field?, hvalues]
  rfl

theorem mapM_eq_some {α β : Type} {f : α → Option β} {xs : List α} {ys : List β}
    (h : List.Forall₂ (fun x y => f x = some y) xs ys) : xs.mapM f = some ys := by
  induction h with
  | nil => rfl
  | cons hx _ ih =>
      rw [List.mapM_cons, hx, ih]
      rfl

/-- A known field has its value, if it has one, whatever the order and the other fields are. -/
theorem field?_perm {known : List (String × Option Json)} {fields extra : List (String × Json)} {name : String}
    {v? : Option Json} (hnodup : (known.map Prod.fst).Nodup) (hperm : fields.Perm (given known ++ extra))
    (hextra : ∀ f ∈ extra, f.1 ∉ known.map Prod.fst) (hmem : (name, v?) ∈ known) :
    field? name (named fields) = some v? := by
  refine field?_eq (eq_toList_of_perm ?_)
  have hvalues : (valuesOf name (named fields)).Perm (valuesOf name (named (given known ++ extra))) :=
    (hperm.map _).filterMap _
  have hothers : valuesOf name (named extra) = [] := by
    refine valuesOf_eq_nil ?_
    rintro f hf rfl
    exact hextra f hf (List.mem_map_of_mem hmem)
  have hall := @valuesOf_append name (given known) extra
  rw [valuesOf_given hnodup hmem, hothers, List.append_nil] at hall
  rw [← hall]
  exact hvalues

/-- Order and other fields make no difference to what a record says. -/
theorem fields?_arranges {known : List (String × Option Json)} {v : Json} (hnodup : (known.map Prod.fst).Nodup)
    (h : Arranges known v) : v.fields? (known.map Prod.fst) = some (known.map Prod.snd) := by
  obtain ⟨fields, extra, hperm, hextra, rfl⟩ := h
  have hkeys : (named fields).all (·.1.isSome) = true := by
    rw [List.all_eq_true]
    intro f hf
    obtain ⟨g, -, rfl⟩ := List.mem_map.mp hf
    rfl
  rw [record_eq, fields?, if_pos hkeys]
  apply mapM_eq_some
  rw [List.forall₂_map_left_iff, List.forall₂_map_right_iff, List.forall₂_same]
  rintro ⟨name, v?⟩ hmem
  exact field?_perm hnodup hperm hextra hmem

/-! ## Fields with a default -/

section Defaults

variable {α : Type} (spelt : α → Json → Prop)

/-- A field that is written or, if it has its default, left out. -/
inductive Defaulted (default : α) : α → Option Json → Prop
  | written {a : α} {v : Json} : spelt a v → Defaulted default a (some v)
  | omitted : Defaulted default default none

/-- A value, or `null` where it is missing. -/
inductive Optional : Option α → Json → Prop
  | missing : Optional none .null
  | present {a : α} {v : Json} : spelt a v → Optional (some a) v

def Listed (xs : List α) (v : Json) : Prop := ∃ items, List.Forall₂ spelt xs items ∧ v = .arr items

variable {spelt} {read? : Json → Option α}

theorem fieldOr_eq {default a : α} {v? : Option Json} (h : Defaulted spelt default a v?)
    (hread : ∀ v, spelt a v → read? v = some a) : fieldOr default read? v? = some a := by
  cases h with
  | written hv => exact hread _ hv
  | omitted => rfl

/-- A field that is given has its value, and one that is not has the default. -/
theorem fieldOr_getD {default : α} {a? : Option α} {v? : Option Json} (h : Option.Rel spelt a? v?)
    (hread : ∀ a v, spelt a v → read? v = some a) : fieldOr default read? v? = some (a?.getD default) := by
  cases h with
  | some hv => exact hread _ _ hv
  | none => rfl

theorem optional?_eq {a? : Option α} {v : Json} (h : Optional spelt a? v)
    (hread : ∀ a v, a? = some a → spelt a v → v ≠ .null ∧ read? v = some a) :
    optional? read? v = some a? := by
  cases h with
  | missing => rfl
  | present hv =>
      obtain ⟨hnull, hread⟩ := hread _ v rfl hv
      rw [optional?, hread]
      · rfl
      · exact hnull

theorem listOf?_eq {xs : List α} {v : Json} (h : Listed spelt xs v)
    (hread : ∀ x ∈ xs, ∀ v, spelt x v → read? v = some x) : listOf? read? v = some xs := by
  obtain ⟨items, hitems, rfl⟩ := h
  apply mapM_eq_some
  induction hitems with
  | nil => exact .nil
  | cons hx _ ih =>
      obtain ⟨hhead, htail⟩ := List.forall_mem_cons.mp hread
      exact .cons (hhead _ hx) (ih htail)

theorem listed_map {toJson : α → Json} (h : ∀ a, spelt a (toJson a)) (xs : List α) :
    Listed spelt xs (.arr (xs.map toJson)) := by
  refine ⟨xs.map toJson, ?_, rfl⟩
  rw [List.forall₂_map_right_iff, List.forall₂_same]
  exact fun x _ => h x

end Defaults

theorem word?_ofNat {n : Nat} (h : n < Word.size) : (ofNat n).word? = some n := Numeral.word?_ofNat h

end PatternCount.Json
