import PatternCount.Plan.Json
import PatternCount.Proofs.Json.Shapes
import PatternCount.Proofs.Json.Values
import PatternCount.Proofs.Plan.Validity

/-!
# Plans come back from JSON

A plan can be written as many values: in the objects of levels, expressions, caches and cached lookups the
fields stand in any order and among others that no reader knows, and a field that has its default may be left
out. `Plan.Spelt` relates a plan to all of these values, `Plan.toJson` being one of them, and a value to a text
is what `Token.Spaced` says, blanks between its tokens. `Plan.parse_spelt` is the result: whichever way a plan
has been written, what is read is that plan again.

There is one lemma for each type, that its reader undoes the relation. The numbers in a plan have to be words
for this; they are, since all of them are earlier levels and positions (`Level.numbers_lt`) and the number of
levels is a word.
-/

namespace PatternCount

open Json (Arranges Defaulted Optional Listed)

/-! ## The ways to write a plan -/

def NumberSpelt (n : Nat) (v : Json) : Prop := v = .ofNat n

inductive SetRef.Spelt : SetRef → Json → Prop
  | all : Spelt .all (.text "all")
  | adjacency (p : Nat) : Spelt (.adjacency p) (.record [("adj", .ofNat p)])
  | candidates (l : Nat) : Spelt (.candidates l) (.record [("candidates", .ofNat l)])
  | cached {c p : Nat} {lookup : Json} :
      Arranges [("cache", some (.ofNat c)), ("pos", some (.ofNat p))] lookup →
      Spelt (.cached c p) (.record [("cached", lookup)])

inductive SetOp.Spelt : SetOp → Json → Prop
  | intersect {r : SetRef} {v : Json} : r.Spelt v → Spelt (.intersect r) (.record [("intersect", v)])
  | subtract {r : SetRef} {v : Json} : r.Spelt v → Spelt (.subtract r) (.record [("subtract", v)])

inductive SetExpr.Spelt (e : SetExpr) (v : Json) : Prop
  | intro {base : Json} {ops upper lower exclude : Option Json} :
      e.base.Spelt base →
      Defaulted (Listed SetOp.Spelt) [] e.ops ops →
      Defaulted (Listed NumberSpelt) [] e.upper upper →
      Defaulted (Listed NumberSpelt) [] e.lower lower →
      Defaulted (Listed NumberSpelt) [] e.exclude exclude →
      Arranges [("base", some base), ("ops", ops), ("upper", upper), ("lower", lower), ("exclude", exclude)] v →
      Spelt e v

inductive CacheSpec.Spelt (spec : CacheSpec) (v : Json) : Prop
  | intro {parent : Option Json} :
      Defaulted (Optional NumberSpelt) none spec.parent parent →
      Arranges [("parent", parent)] v →
      Spelt spec v

inductive Level.Spelt (level : Level) (v : Json) : Prop
  | intro {candidates : Json} {cache : Option Json} :
      level.candidates.Spelt candidates →
      Defaulted (Optional CacheSpec.Spelt) none level.cache cache →
      Arranges [("candidates", some candidates), ("cache", cache)] v →
      Spelt level v

def Plan.Spelt (p : Plan) (v : Json) : Prop := Listed Level.Spelt p.levels.toList v

/-! ## The numbers in a plan -/

def SetRef.numbers : SetRef → List Nat
  | all => []
  | adjacency p => [p]
  | candidates l => [l]
  | cached c p => [c, p]

def SetExpr.numbers (e : SetExpr) : List Nat := e.refs.flatMap SetRef.numbers ++ e.constrained

def Level.numbers (level : Level) : List Nat :=
  level.candidates.numbers ++ (level.cache.bind CacheSpec.parent).toList

theorem Level.GoodRef.numbers_lt {levels : Array Level} {k : Nat} {base r : SetRef}
    (h : GoodRef levels k base r) : ∀ n ∈ r.numbers, n < k := by
  cases r with
  | all => exact h.elim
  | adjacency p =>
      intro n hn
      rw [List.mem_singleton.mp hn]
      exact h
  | candidates l =>
      intro n hn
      rw [List.mem_singleton.mp hn]
      exact h
  | cached c p =>
      obtain ⟨hp, ⟨-, hcp, -⟩, -⟩ := h
      intro n hn
      rcases List.mem_pair.mp hn with rfl | rfl
      · omega
      · exact hp

/-- A level of a plan speaks of earlier levels and positions only. -/
theorem Level.numbers_lt {levels : Array Level} {k : Nat} {level : Level} (h : Valid levels)
    (hlevel : levels[k]? = some level) : ∀ n ∈ level.numbers, n < k := by
  rcases Nat.eq_zero_or_pos k with rfl | hk
  · rw [h.root] at hlevel
    obtain rfl := Option.some.inj hlevel
    nofun
  · have hgood := h.inner k level hk hlevel
    intro n hn
    rcases List.mem_append.mp hn with hn | hn
    · rcases List.mem_append.mp hn with hn | hn
      · obtain ⟨r, hr, hn⟩ := List.mem_flatMap.mp hn
        exact (hgood.refs r hr).numbers_lt n hn
      · exact hgood.constrained n hn
    · obtain ⟨spec, hspec, hparent⟩ := Option.bind_eq_some_iff.mp (Option.mem_toList.mp hn)
      exact ((hgood.cache spec hspec).2 n hparent).1.1

/-! ## What is read -/

/-- Numbers that a reader takes. -/
def AreWords (ns : List Nat) : Prop := ∀ n ∈ ns, n < Word.size

theorem AreWords.left {ns ms : List Nat} (h : AreWords (ns ++ ms)) : AreWords ns :=
  fun n hn => h n (List.mem_append_left ms hn)

theorem AreWords.right {ns ms : List Nat} (h : AreWords (ns ++ ms)) : AreWords ms :=
  fun n hn => h n (List.mem_append_right ns hn)

theorem numbers_eq {ns : List Nat} {v? : Option Json} (hns : AreWords ns)
    (h : Defaulted (Listed NumberSpelt) [] ns v?) : Json.fieldOr [] (Json.listOf? Json.word?) v? = some ns := by
  refine Json.fieldOr_eq h ?_
  intro v hv
  refine Json.listOf?_eq hv ?_
  rintro n hn v rfl
  exact Json.word?_ofNat (hns n hn)

theorem SetRef.ofJson?_eq {r : SetRef} {v : Json} (h : r.Spelt v) (hr : AreWords r.numbers) :
    SetRef.ofJson? v = some r := by
  cases h with
  | all => rfl
  | adjacency p =>
      have hp : (Json.ofNat p).word? = some p := Json.word?_ofNat (hr p List.mem_cons_self)
      show (do return SetRef.adjacency (← (Json.ofNat p).word?)) = _
      rw [hp]
      rfl
  | candidates l =>
      have hl : (Json.ofNat l).word? = some l := Json.word?_ofNat (hr l List.mem_cons_self)
      show (do return SetRef.candidates (← (Json.ofNat l).word?)) = _
      rw [hl]
      rfl
  | @cached c p lookup hlookup =>
      have hc : (Json.ofNat c).word? = some c := Json.word?_ofNat (hr c List.mem_cons_self)
      have hp : (Json.ofNat p).word? = some p := Json.word?_ofNat (hr p (List.mem_cons_of_mem c List.mem_cons_self))
      have hfields : lookup.fields? ["cache", "pos"] = some [some (.ofNat c), some (.ofNat p)] :=
        Json.fields?_arranges (by simp) hlookup
      show SetRef.ofLookup? lookup = _
      rw [SetRef.ofLookup?, hfields]
      show (do return SetRef.cached (← (Json.ofNat c).word?) (← (Json.ofNat p).word?)) = _
      rw [hc, hp]
      rfl

theorem SetOp.ofJson?_eq {o : SetOp} {v : Json} (h : o.Spelt v) (ho : AreWords o.operand.numbers) :
    SetOp.ofJson? v = some o := by
  cases h with
  | @intersect r v hv =>
      show (do return SetOp.intersect (← SetRef.ofJson? v)) = _
      rw [SetRef.ofJson?_eq hv ho]
      rfl
  | @subtract r v hv =>
      show (do return SetOp.subtract (← SetRef.ofJson? v)) = _
      rw [SetRef.ofJson?_eq hv ho]
      rfl

theorem SetExpr.ofJson?_eq {e : SetExpr} {v : Json} (h : e.Spelt v) (he : AreWords e.numbers) :
    SetExpr.ofJson? v = some e := by
  obtain @⟨base, ops, upper, lower, exclude, hbase, hops, hupper, hlower, hexclude, hv⟩ := h
  have hrefs : ∀ r ∈ e.refs, AreWords r.numbers := fun r hr n hn => he.left n (List.mem_flatMap.mpr ⟨r, hr, hn⟩)
  have hconstrained : AreWords (e.upper ++ e.lower ++ e.exclude) := he.right
  have hbase := SetRef.ofJson?_eq hbase (hrefs _ List.mem_cons_self)
  have hops : Json.fieldOr [] (Json.listOf? SetOp.ofJson?) ops = some e.ops := by
    refine Json.fieldOr_eq hops ?_
    intro v hv
    refine Json.listOf?_eq hv ?_
    intro o ho v hv
    exact SetOp.ofJson?_eq hv (hrefs _ (List.mem_cons_of_mem _ (List.mem_map_of_mem ho)))
  have hupper := numbers_eq hconstrained.left.left hupper
  have hlower := numbers_eq hconstrained.left.right hlower
  have hexclude := numbers_eq hconstrained.right hexclude
  have hfields : v.fields? ["base", "ops", "upper", "lower", "exclude"]
      = some [some base, ops, upper, lower, exclude] := Json.fields?_arranges (by simp) hv
  simp only [SetExpr.ofJson?, hfields, hbase, hops, hupper, hlower, hexclude, Option.bind_eq_bind,
    Option.bind_some, Option.pure_def]

/-- What describes a cache is an object, and not the `null` that stands where there is no cache. -/
theorem CacheSpec.Spelt.ne_null {spec : CacheSpec} {v : Json} (h : spec.Spelt v) : v ≠ .null := by
  obtain ⟨-, fields, extra, -, -, rfl⟩ := h
  nofun

theorem CacheSpec.ofJson?_eq {spec : CacheSpec} {v : Json} (h : spec.Spelt v)
    (hspec : AreWords spec.parent.toList) : CacheSpec.ofJson? v = some spec := by
  obtain @⟨parent, hparent, hv⟩ := h
  have hparent : Json.fieldOr none (Json.optional? Json.word?) parent = some spec.parent := by
    refine Json.fieldOr_eq hparent ?_
    intro v hv
    refine Json.optional?_eq hv ?_
    rintro n v hn rfl
    exact ⟨nofun, Json.word?_ofNat (hspec n (Option.mem_toList.mpr hn))⟩
  have hfields : v.fields? ["parent"] = some [parent] := Json.fields?_arranges (by simp) hv
  simp only [CacheSpec.ofJson?, hfields, hparent, Option.bind_eq_bind, Option.bind_some, Option.pure_def]

theorem Level.ofJson?_eq {level : Level} {v : Json} (h : level.Spelt v) (hlevel : AreWords level.numbers) :
    Level.ofJson? v = some level := by
  obtain @⟨candidates, cache, hcandidates, hcache, hv⟩ := h
  have hcandidates := SetExpr.ofJson?_eq hcandidates hlevel.left
  have hcache : Json.fieldOr none (Json.optional? CacheSpec.ofJson?) cache = some level.cache := by
    refine Json.fieldOr_eq hcache ?_
    intro v hv
    refine Json.optional?_eq hv ?_
    intro spec v hspec hv
    refine ⟨hv.ne_null, CacheSpec.ofJson?_eq hv ?_⟩
    have hwords : AreWords (level.cache.bind CacheSpec.parent).toList := hlevel.right
    rwa [hspec] at hwords
  have hfields : v.fields? ["candidates", "cache"] = some [some candidates, cache] :=
    Json.fields?_arranges (by simp) hv
  simp only [Level.ofJson?, hfields, hcandidates, hcache, Option.bind_eq_bind, Option.bind_some, Option.pure_def]

/-! ## What is written -/

theorem numberSpelt_ofNat (n : Nat) : NumberSpelt n (.ofNat n) := rfl

theorem SetRef.spelt_toJson (r : SetRef) : r.Spelt r.toJson := by
  cases r with
  | all => exact .all
  | adjacency p => exact .adjacency p
  | candidates l => exact .candidates l
  | cached c p => exact .cached (Json.arranges_given _)

theorem SetOp.spelt_toJson (o : SetOp) : o.Spelt o.toJson := by
  cases o with
  | intersect r => exact .intersect r.spelt_toJson
  | subtract r => exact .subtract r.spelt_toJson

theorem SetExpr.spelt_toJson (e : SetExpr) : e.Spelt e.toJson := by
  have hnumbers : ∀ ns : List Nat, Listed NumberSpelt ns (.arr (ns.map Json.ofNat)) :=
    Json.listed_map numberSpelt_ofNat
  exact .intro e.base.spelt_toJson (.written (Json.listed_map SetOp.spelt_toJson e.ops))
    (.written (hnumbers e.upper)) (.written (hnumbers e.lower)) (.written (hnumbers e.exclude))
    (Json.arranges_given _)

theorem Json.optional_ofOption {α : Type} {spelt : α → Json → Prop} {toJson : α → Json}
    (h : ∀ a, spelt a (toJson a)) (a? : Option α) : Optional spelt a? (Json.ofOption toJson a?) := by
  cases a? with
  | none => exact .missing
  | some a => exact .present (h a)

theorem CacheSpec.spelt_toJson (spec : CacheSpec) : spec.Spelt spec.toJson :=
  .intro (.written (Json.optional_ofOption numberSpelt_ofNat spec.parent)) (Json.arranges_given _)

theorem Level.spelt_toJson (level : Level) : level.Spelt level.toJson :=
  .intro level.candidates.spelt_toJson (.written (Json.optional_ofOption CacheSpec.spelt_toJson level.cache))
    (Json.arranges_given _)

/-! Only natural numbers are written as numerals. -/

theorem SetRef.wellFormed_toJson (r : SetRef) : r.toJson.WellFormed := by
  cases r <;> simp [toJson]

theorem SetOp.wellFormed_toJson (o : SetOp) : o.toJson.WellFormed := by
  cases o <;> simp [toJson, SetRef.wellFormed_toJson]

theorem SetExpr.wellFormed_toJson (e : SetExpr) : e.toJson.WellFormed := by
  simp [toJson, SetRef.wellFormed_toJson, SetOp.wellFormed_toJson]

theorem CacheSpec.wellFormed_toJson (spec : CacheSpec) : spec.toJson.WellFormed := by
  cases h : spec.parent <;> simp [toJson, Json.ofOption, h]

theorem Level.wellFormed_toJson (level : Level) : level.toJson.WellFormed := by
  cases h : level.cache <;>
    simp [toJson, Json.ofOption, SetExpr.wellFormed_toJson, CacheSpec.wellFormed_toJson, h]

namespace Plan

theorem spelt_toJson (p : Plan) : p.Spelt p.toJson := Json.listed_map Level.spelt_toJson p.levels.toList

theorem wellFormed_toJson (p : Plan) : p.toJson.WellFormed := by
  simp [toJson, Level.wellFormed_toJson]

/-! ## There and back -/

/-- A plan is what its levels make. -/
theorem ofLevels_levels (p : Plan) : ofLevels p.levels = .ok p := by
  obtain ⟨levels, info, hvalid, rfl⟩ := p
  unfold ofLevels
  split
  · rfl
  · next h =>
      rw [hvalid] at h
      cases h

theorem listOfJson?_eq {p : Plan} {v : Json} (hdepth : p.depth < Word.size) (h : p.Spelt v) :
    Level.listOfJson? v = some p.levels.toList := by
  refine Json.listOf?_eq h ?_
  intro level hlevel v hv
  obtain ⟨k, hk, rfl⟩ := List.getElem_of_mem hlevel
  have hk : k < p.levels.size := hk
  have hget : p.levels[k]? = some p.levels.toList[k] := by
    rw [Array.getElem?_eq_getElem hk]
    rfl
  refine Level.ofJson?_eq hv fun n hn => ?_
  have hlt : n < k := Level.numbers_lt p.isValid hget n hn
  have hsize : p.levels.size < Word.size := hdepth
  omega

theorem parse_of_spaced {p : Plan} {v : Json} {text : String} (hdepth : p.depth < Word.size) (h : p.Spelt v)
    (htext : Token.Spaced v.tokens text.toList) : parse text = .ok p := by
  have hread : Level.ofText? text = some (p.levels.toList, []) := by
    simp only [Level.ofText?, Json.ofTokens?_scan htext, listOfJson?_eq hdepth h, Option.bind_eq_bind,
      Option.bind_some, Option.pure_def]
  rw [parse, hread]
  simp only [Array.toArray_toList, ofLevels_levels]
  rfl

/-- What a plan is written as reads as that plan. It is one of many texts: so does every other one in which the
fields of the objects are in another order, fields that nobody knows have come in, blanks stand between the tokens,
or fields that have their default are left out. -/
theorem parse_spelt (p : Plan) (hdepth : p.depth < Word.size) :
    parse p.toText = .ok p ∧
      (p.Spelt p.toJson ∧ Token.Spaced p.toJson.tokens p.toText.toList) ∧
      ∀ (v : Json) (text : String), p.Spelt v → Token.Spaced v.tokens text.toList → parse text = .ok p := by
  have htext : Token.Spaced p.toJson.tokens p.toText.toList := Json.spaced_compact p.wellFormed_toJson
  refine ⟨parse_of_spaced hdepth p.spelt_toJson htext, ⟨p.spelt_toJson, htext⟩, ?_⟩
  intro v text h htext
  exact parse_of_spaced hdepth h htext

/-- Triangles with a cache that is looked up, and another text for the same plan: on many lines, without most of the
fields that have their default, the others in another order, and with remarks in all kinds of objects. -/
theorem parse_spelt_triangle :
    ∃ p : Plan, p.levels = #[⟨.ofBase .all, none⟩, ⟨.ofBase (.adjacency 0), some ⟨none⟩⟩,
        ⟨⟨.candidates 1, [.intersect (.cached 1 1)], [], [0], []⟩, none⟩] ∧
      parse p.toText = .ok p ∧
      parse (Json.arr [
        .record [("remark", .text "root"), ("candidates", .record [("base", .text "all")])],
        .record [
          ("cache", .record [("remark", .null)]),
          ("candidates", .record [("base", .record [("adj", .ofNat 0)]), ("ops", .arr [])])],
        .record [
          ("candidates", .record [
            ("lower", .arr [.ofNat 0]),
            ("ops", .arr [.record [("intersect", .record [("cached",
              .record [("pos", .ofNat 1), ("remark", .arr [.ofNat 7]), ("cache", .ofNat 1)])])]]),
            ("remark", .ofNat 1),
            ("base", .record [("candidates", .ofNat 1)])])]]).pretty = .ok p := by
  let levels : Array Level := #[⟨.ofBase .all, none⟩, ⟨.ofBase (.adjacency 0), some ⟨none⟩⟩,
    ⟨⟨.candidates 1, [.intersect (.cached 1 1)], [], [0], []⟩, none⟩]
  let p : Plan := ⟨levels, LevelInfo.ofLevels levels, by decide +kernel, rfl⟩
  obtain ⟨hback, -, hother⟩ := parse_spelt p (by decide)
  refine ⟨p, rfl, hback, hother _ _ ⟨_, ?_, rfl⟩ (Json.spaced_pretty (by simp))⟩
  refine .cons ?root (.cons ?middle (.cons ?last .nil))
  case root =>
    have hexpr : (SetExpr.ofBase .all).Spelt (.record [("base", .text "all")]) :=
      .intro .all .omitted .omitted .omitted .omitted (Json.arranges_given _)
    exact .intro hexpr .omitted ⟨_, [("remark", .text "root")], .swap _ _ _, by simp, rfl⟩
  case middle =>
    have hexpr : (SetExpr.ofBase (.adjacency 0)).Spelt
        (.record [("base", .record [("adj", .ofNat 0)]), ("ops", .arr [])]) :=
      .intro (.adjacency 0) (.written ⟨[], .nil, rfl⟩) .omitted .omitted .omitted (Json.arranges_given _)
    have hcache : CacheSpec.Spelt ⟨none⟩ (.record [("remark", .null)]) :=
      .intro .omitted ⟨_, [("remark", .null)], .refl _, by simp, rfl⟩
    exact .intro hexpr (.written (.present hcache)) ⟨_, [], .swap _ _ _, nofun, rfl⟩
  case last =>
    have hlookup : (SetRef.cached 1 1).Spelt (.record [("cached",
        .record [("pos", .ofNat 1), ("remark", .arr [.ofNat 7]), ("cache", .ofNat 1)])]) :=
      .cached ⟨_, [("remark", .arr [.ofNat 7])], List.perm_append_singleton _ [_, _], by simp, rfl⟩
    have hlower : Listed NumberSpelt [0] (.arr [.ofNat 0]) := Json.listed_map numberSpelt_ofNat [0]
    refine .intro (.intro (.candidates 1) (.written ⟨_, .cons (.intersect hlookup) .nil, rfl⟩) .omitted
      (.written hlower) .omitted ⟨_, [("remark", .ofNat 1)], ?_, by simp, rfl⟩) .omitted (Json.arranges_given _)
    exact (List.perm_append_singleton _ [_, _, _]).trans (.cons _ (.swap _ _ _))

end Plan

end PatternCount
