import PatternCount.Config.Json
import PatternCount.Proofs.Json.Shapes
import PatternCount.Proofs.Json.Values
import PatternCount.Proofs.Outcome

/-!
# Configurations come back from JSON

A text gives some of the settings (`Settings`), and those that it does not give have their default: what is read is
the default configuration with these settings put onto it (`Settings.onto`). `Settings.Spelt` relates settings to the
objects that give them, with the fields in any order and among any others. A fan-out is an object itself, and so its
mode may come after the factor that the mode asks for.

A configuration that is written is one with all of its settings given (`Settings.all`). That it comes back is therefore
a case of the same lemma, `ofJson?_of_spelt`. What is left is the check after reading, which accepts the
configurations without a size of zero (`check_eq_ok_iff`).
-/

namespace PatternCount

open Json (Arranges)

/-! ## Sizes -/

namespace Config

/-- Workers can take hold of units, the queue can hold them, and every level can fan out. -/
structure Positive (c : Config) : Prop where
  chunkSize : 0 < c.chunkSize
  queueCapacity : 0 < c.queueCapacity
  stealBatch : 0 < c.stealBatch
  factor : ∀ factor, c.fanOut = .adaptive factor → 0 < factor

/-- All numbers are words. -/
structure Fits (c : Config) : Prop where
  numThreads : c.numThreads < Word.size
  factor : ∀ factor, c.fanOut = .adaptive factor → factor < Word.size
  chunkSize : c.chunkSize < Word.size
  queueCapacity : c.queueCapacity < Word.size
  stealBatch : c.stealBatch < Word.size

end Config

/-- The error is about a size of the configuration, and that size is zero. -/
def ConfigError.Blames : ConfigError → Config → Prop
  | malformed, _ => False
  | zeroChunkSize, c => c.chunkSize = 0
  | zeroQueueCapacity, c => c.queueCapacity = 0
  | zeroStealBatch, c => c.stealBatch = 0
  | zeroFanOutFactor, c => c.fanOut = .adaptive 0

namespace Config

variable {c : Config}

theorem Positive.not_blames (h : c.Positive) : ∀ e : ConfigError, ¬e.Blames c
  | .malformed => id
  | .zeroChunkSize => Nat.ne_of_gt h.chunkSize
  | .zeroQueueCapacity => Nat.ne_of_gt h.queueCapacity
  | .zeroStealBatch => Nat.ne_of_gt h.stealBatch
  | .zeroFanOutFactor => fun hzero => absurd (h.factor 0 hzero) (Nat.lt_irrefl 0)

/-- The check goes through the sizes, and stops at the first that is zero. -/
theorem check_cases (c : Config) :
    (c.Positive ∧ c.check = .ok ()) ∨ ∃ e : ConfigError, e.Blames c ∧ c.check = .error e := by
  by_cases hchunk : c.chunkSize = 0
  · exact .inr ⟨.zeroChunkSize, hchunk, by rw [check, if_pos hchunk]⟩
  by_cases hqueue : c.queueCapacity = 0
  · exact .inr ⟨.zeroQueueCapacity, hqueue, by rw [check, if_neg hchunk, if_pos hqueue]⟩
  by_cases hsteal : c.stealBatch = 0
  · exact .inr ⟨.zeroStealBatch, hsteal, by rw [check, if_neg hchunk, if_neg hqueue, if_pos hsteal]⟩
  by_cases hzero : c.fanOut = .adaptive 0
  · exact .inr ⟨.zeroFanOutFactor, hzero, by rw [check, if_neg hchunk, if_neg hqueue, if_neg hsteal, if_pos hzero]⟩
  have hfactor : ∀ factor, c.fanOut = .adaptive factor → 0 < factor := by
    intro factor hfanOut
    refine Nat.pos_of_ne_zero ?_
    rintro rfl
    exact hzero hfanOut
  refine .inl ⟨⟨Nat.pos_of_ne_zero hchunk, Nat.pos_of_ne_zero hqueue, Nat.pos_of_ne_zero hsteal, hfactor⟩, ?_⟩
  rw [check, if_neg hchunk, if_neg hqueue, if_neg hsteal, if_neg hzero]

theorem check_eq_ok_iff : c.check = .ok () ↔ c.Positive := by
  rcases c.check_cases with ⟨hpositive, hcheck⟩ | ⟨e, hblames, hcheck⟩
  · exact iff_of_true hcheck hpositive
  · refine iff_of_false ?_ fun hpositive => hpositive.not_blames e hblames
    rw [hcheck]
    nofun

end Config

/-! ## The ways to write settings -/

/-- What a text says of a configuration. -/
structure Settings where
  numThreads : Option Nat := none
  fanOut : Option FanOut := none
  cache : Option CachePolicy := none
  chunkSize : Option Nat := none
  queueCapacity : Option Nat := none
  stealBatch : Option Nat := none

namespace Settings

/-- A configuration in which the given settings are replaced. -/
def onto (s : Settings) (c : Config) : Config where
  numThreads := s.numThreads.getD c.numThreads
  fanOut := s.fanOut.getD c.fanOut
  cache := s.cache.getD c.cache
  chunkSize := s.chunkSize.getD c.chunkSize
  queueCapacity := s.queueCapacity.getD c.queueCapacity
  stealBatch := s.stealBatch.getD c.stealBatch

/-- The settings of which none is left to its default. -/
def all (c : Config) : Settings where
  numThreads := some c.numThreads
  fanOut := some c.fanOut
  cache := some c.cache
  chunkSize := some c.chunkSize
  queueCapacity := some c.queueCapacity
  stealBatch := some c.stealBatch

theorem onto_all (c other : Config) : (all c).onto other = c := rfl

end Settings

/-- A number is written as its numeral, which is read if it is a word. -/
def WordSpelt (n : Nat) (v : Json) : Prop := n < Word.size ∧ v = .ofNat n

inductive CachePolicy.Spelt (p : CachePolicy) : Json → Prop
  | name : Spelt p (.text p.name)
  | variant : Spelt p (.record [(p.name, .null)])

/-- Until its mode is known the fields of a fan-out are held, whatever they turn out to be. A mode without a factor
takes a field of that name for one that it does not know. -/
inductive FanOut.Spelt : FanOut → Json → Prop
  | adaptive {factor : Nat} {number v : Json} : WordSpelt factor number →
      Arranges [("mode", some (.text "adaptive")), ("factor", some number)] v →
      v.isStorable (contentDepth + 1) = true → Spelt (.adaptive factor) v
  | always {v : Json} : Arranges [("mode", some (.text "always"))] v →
      v.isStorable (contentDepth + 1) = true → Spelt .always v
  | never {v : Json} : Arranges [("mode", some (.text "never"))] v →
      v.isStorable (contentDepth + 1) = true → Spelt .never v
  | adaptiveItems {factor : Nat} {number : Json} : WordSpelt factor number →
      Spelt (.adaptive factor) (.arr [.text "adaptive", number])
  | alwaysItems : Spelt .always (.arr [.text "always"])
  | neverItems : Spelt .never (.arr [.text "never"])

inductive Settings.Spelt (s : Settings) (v : Json) : Prop
  | intro {numThreads fanOut cache chunkSize queueCapacity stealBatch : Option Json} :
      Option.Rel WordSpelt s.numThreads numThreads →
      Option.Rel FanOut.Spelt s.fanOut fanOut →
      Option.Rel CachePolicy.Spelt s.cache cache →
      Option.Rel WordSpelt s.chunkSize chunkSize →
      Option.Rel WordSpelt s.queueCapacity queueCapacity →
      Option.Rel WordSpelt s.stealBatch stealBatch →
      Arranges [("num_threads", numThreads), ("fan_out", fanOut), ("cache", cache), ("chunk_size", chunkSize),
        ("queue_capacity", queueCapacity), ("steal_batch", stealBatch)] v →
      Spelt s v

/-! ## What is read -/

theorem WordSpelt.word?_eq {n : Nat} {v : Json} (h : WordSpelt n v) : v.word? = some n := by
  obtain ⟨hn, rfl⟩ := h
  exact Json.word?_ofNat hn

theorem WordSpelt.isStorable {n depth : Nat} {v : Json} (h : WordSpelt n v) : v.isStorable depth = true := by
  obtain ⟨hn, rfl⟩ := h
  have hword : (Numeral.ofNat n).word? = some n := Numeral.word?_ofNat hn
  rw [Json.ofNat, Json.isStorable, hword]
  rfl

theorem CachePolicy.ofJson?_eq {p : CachePolicy} {v : Json} (h : p.Spelt v) : CachePolicy.ofJson? v = some p := by
  cases h <;> cases p <;> rfl

namespace FanOut

/-- The mode decides whether a factor is asked for, wherever the two of them stand. -/
theorem ofFields?_eq {fields : List (Option String × Json)} {mode : String} {factor : Option Json}
    (hstorable : Json.areFieldsStorable contentDepth fields = true)
    (hmode : Json.field? "mode" fields = some (some (.text mode)))
    (hfactor : mode = "adaptive" → Json.field? "factor" fields = some factor) :
    ofFields? fields = ofMode? mode factor := by
  have hothers : Json.areFieldsStorable contentDepth (fields.filter (·.1 ≠ some "mode")) = true :=
    Json.areFieldsStorable_iff.mpr fun f hf => Json.areFieldsStorable_iff.mp hstorable f (List.mem_of_mem_filter hf)
  rw [ofFields?, if_pos hothers, hmode]
  show (if mode = "adaptive" then (Json.field? "factor" (fields.filter (·.1 ≠ some "mode"))).bind (ofMode? mode)
    else ofMode? mode none) = ofMode? mode factor
  by_cases hadaptive : mode = "adaptive"
  · rw [if_pos hadaptive, Json.field?_filter_ne (by decide), hfactor hadaptive, Option.bind_some]
  · rw [if_neg hadaptive]
    unfold ofMode?
    split
    · exact absurd rfl hadaptive
    · rfl
    · rfl
    · rfl

theorem ofJson?_adaptive {number v : Json} (hstorable : v.isStorable (contentDepth + 1) = true)
    (hv : Arranges [("mode", some (.text "adaptive")), ("factor", some number)] v) :
    FanOut.ofJson? v = ofMode? "adaptive" (some number) := by
  obtain ⟨fields, extra, hperm, hextra, rfl⟩ := hv
  have hnames : (List.map Prod.fst [("mode", some (Json.text "adaptive")), ("factor", some number)]).Nodup := by simp
  have hmode := Json.field?_perm hnames hperm hextra List.mem_cons_self
  have hfactor := Json.field?_perm hnames hperm hextra (List.mem_cons_of_mem _ List.mem_cons_self)
  exact ofFields?_eq hstorable hmode fun _ => hfactor

theorem ofJson?_of_ne_adaptive {mode : String} {v : Json} (hne : mode ≠ "adaptive")
    (hstorable : v.isStorable (contentDepth + 1) = true) (hv : Arranges [("mode", some (.text mode))] v) :
    FanOut.ofJson? v = ofMode? mode none := by
  obtain ⟨fields, extra, hperm, hextra, rfl⟩ := hv
  have hmode := Json.field?_perm (by simp) hperm hextra List.mem_cons_self
  exact ofFields?_eq hstorable hmode fun hadaptive => absurd hadaptive hne

theorem ofMode?_adaptive {factor : Nat} {number : Json} (h : WordSpelt factor number) :
    ofMode? "adaptive" (some number) = some (adaptive factor) := by
  show (do return adaptive (← number.word?)) = _
  rw [h.word?_eq]
  rfl

theorem ofJson?_eq {f : FanOut} {v : Json} (h : f.Spelt v) : FanOut.ofJson? v = some f := by
  cases h with
  | adaptive hnumber hv hstorable => rw [ofJson?_adaptive hstorable hv, ofMode?_adaptive hnumber]
  | always hv hstorable =>
      rw [ofJson?_of_ne_adaptive (by decide) hstorable hv]
      rfl
  | never hv hstorable =>
      rw [ofJson?_of_ne_adaptive (by decide) hstorable hv]
      rfl
  | adaptiveItems hnumber => exact ofMode?_adaptive hnumber
  | alwaysItems => rfl
  | neverItems => rfl

end FanOut

namespace Config

/-- Settings that are given are read, and nothing else has a say. -/
theorem ofJson?_of_spelt {s : Settings} {v : Json} (h : s.Spelt v) : Config.ofJson? v = some (s.onto {}) := by
  obtain @⟨numThreads, fanOut, cache, chunkSize, queueCapacity, stealBatch, hnumThreads, hfanOut, hcache, hchunkSize,
    hqueueCapacity, hstealBatch, hv⟩ := h
  have hword : ∀ n v, WordSpelt n v → v.word? = some n := fun _ _ => WordSpelt.word?_eq
  have hfields : v.fields? fieldNames = some [numThreads, fanOut, cache, chunkSize, queueCapacity, stealBatch] :=
    Json.fields?_arranges (by simp) hv
  simp only [Config.ofJson?, hfields, Json.fieldOr_getD hnumThreads hword,
    Json.fieldOr_getD hfanOut fun _ _ => FanOut.ofJson?_eq,
    Json.fieldOr_getD hcache fun _ _ => CachePolicy.ofJson?_eq, Json.fieldOr_getD hchunkSize hword,
    Json.fieldOr_getD hqueueCapacity hword, Json.fieldOr_getD hstealBatch hword, Option.bind_eq_bind,
    Option.bind_some, Option.pure_def]
  rfl

theorem ofText?_of_spelt {s : Settings} {v : Json} {text : String} (h : s.Spelt v)
    (htext : Token.Spaced v.tokens text.toList) : (Json.parse? text).bind ofJson? = some (s.onto {}) := by
  rw [Json.parse?, Json.ofTokens?_scan htext]
  exact ofJson?_of_spelt h

end Config

/-! ## What is written -/

theorem FanOut.wellFormed_toJson (f : FanOut) : f.toJson.WellFormed := by
  cases f <;> simp [toJson]

theorem FanOut.spelt_toJson {f : FanOut} (h : ∀ factor, f = .adaptive factor → factor < Word.size) :
    f.Spelt f.toJson := by
  cases f with
  | adaptive factor =>
      have hword : WordSpelt factor (.ofNat factor) := ⟨h factor rfl, rfl⟩
      refine .adaptive hword (Json.arranges_given _) (Json.areFieldsStorable_iff.mpr fun f hf => ?_)
      rcases List.mem_pair.mp hf with rfl | rfl
      · exact ⟨rfl, rfl⟩
      · exact ⟨rfl, hword.isStorable⟩
  | always => exact .always (Json.arranges_given _) (by decide)
  | never => exact .never (Json.arranges_given _) (by decide)

namespace Config

theorem wellFormed_toJson (c : Config) : c.toJson.WellFormed := by
  simp [toJson, CachePolicy.toJson, FanOut.wellFormed_toJson]

theorem spelt_toJson {c : Config} (h : c.Fits) : (Settings.all c).Spelt c.toJson :=
  .intro (.some ⟨h.numThreads, rfl⟩) (.some (FanOut.spelt_toJson h.factor)) (.some .name)
    (.some ⟨h.chunkSize, rfl⟩) (.some ⟨h.queueCapacity, rfl⟩) (.some ⟨h.stealBatch, rfl⟩) (Json.arranges_given _)

/-! ## There and back -/

theorem parse_of_positive {c : Config} {text : String} (hread : (Json.parse? text).bind ofJson? = some c)
    (h : c.Positive) : parse text = .ok c := by
  rw [parse, hread]
  show (do c.check; return c) = _
  rw [check_eq_ok_iff.mpr h]
  rfl

theorem parse_of_not_positive {c : Config} {text : String} (hread : (Json.parse? text).bind ofJson? = some c)
    (h : ¬c.Positive) : ∃ e : ConfigError, e.Blames c ∧ parse text = .error e := by
  rcases c.check_cases with ⟨hpositive, -⟩ | ⟨e, hblames, hcheck⟩
  · exact absurd hpositive h
  · refine ⟨e, hblames, ?_⟩
    rw [parse, hread]
    show (do c.check; return c) = _
    rw [hcheck]
    rfl

/-- A configuration that passes the check is written as a text that reads as it again. An object that gives some of the
settings, with the fields in any order and among any others, is read as the default configuration in which these are
replaced; it is accepted if all sizes are positive, and otherwise refused for one of them that is zero. -/
theorem parse_settings :
    (∀ c : Config, c.Fits → c.check = .ok () → parse c.render = .ok c) ∧
      ∀ (s : Settings) (v : Json) (text : String), s.Spelt v → Token.Spaced v.tokens text.toList →
        (Json.parse? text).bind ofJson? = some (s.onto {}) ∧
          ((s.onto {}).Positive → parse text = .ok (s.onto {})) ∧
          (¬(s.onto {}).Positive → ∃ e : ConfigError, e.Blames (s.onto {}) ∧ parse text = .error e) := by
  constructor
  · intro c hfits hcheck
    have hread := ofText?_of_spelt (spelt_toJson hfits) (Json.spaced_pretty c.wellFormed_toJson)
    rw [Settings.onto_all] at hread
    exact parse_of_positive hread (check_eq_ok_iff.mp hcheck)
  · intro s v text h htext
    have hread := ofText?_of_spelt h htext
    exact ⟨hread, parse_of_positive hread, parse_of_not_positive hread⟩

/-- The largest sizes there are; two settings among remarks, the mode of the fan-out after its factor; and a factor of
zero. -/
theorem parse_settings_mixed :
    parse (render ⟨0, .adaptive Word.max, .never, Word.max, Word.max, Word.max⟩)
      = .ok ⟨0, .adaptive Word.max, .never, Word.max, Word.max, Word.max⟩ ∧
    parse (Json.record [
        ("steal_batch", .ofNat 3),
        ("remark", .arr [.null]),
        ("fan_out", .record [("factor", .ofNat 5), ("remark", .null), ("mode", .text "adaptive")])]).pretty
      = .ok ⟨0, .adaptive 5, .costModel, 64, 256, 3⟩ ∧
    ∃ e : ConfigError, e.Blames ⟨0, .adaptive 0, .costModel, 64, 256, 8⟩ ∧
      parse (Json.record [("fan_out", .arr [.text "adaptive", .ofNat 0])]).pretty = .error e := by
  obtain ⟨hback, hread⟩ := parse_settings
  refine ⟨?largest, ?mixed, ?zero⟩
  case largest =>
    refine hback _ ⟨by decide, ?_, by decide, by decide, by decide⟩
      (check_eq_ok_iff.mpr ⟨by decide, by decide, by decide, ?_⟩)
    · rintro factor ⟨⟩
      decide
    · rintro factor ⟨⟩
      decide
  case mixed =>
    have hfanOut : (FanOut.adaptive 5).Spelt
        (.record [("factor", .ofNat 5), ("remark", .null), ("mode", .text "adaptive")]) := by
      have hword : WordSpelt 5 (.ofNat 5) := ⟨by decide, rfl⟩
      refine .adaptive hword ⟨_, [("remark", .null)], List.perm_append_singleton _ [_, _], by simp, rfl⟩ ?_
      refine Json.areFieldsStorable_iff.mpr fun f hf => ?_
      simp only [List.map_cons, List.map_nil, List.mem_cons, List.not_mem_nil, or_false] at hf
      rcases hf with rfl | rfl | rfl
      · exact ⟨rfl, hword.isStorable⟩
      · exact ⟨rfl, rfl⟩
      · exact ⟨rfl, rfl⟩
    have hgiven : Settings.Spelt { fanOut := some (.adaptive 5), stealBatch := some 3 } (.record [
        ("steal_batch", .ofNat 3),
        ("remark", .arr [.null]),
        ("fan_out", .record [("factor", .ofNat 5), ("remark", .null), ("mode", .text "adaptive")])]) :=
      .intro .none (.some hfanOut) .none .none .none (.some ⟨by decide, rfl⟩)
        ⟨_, [("remark", .arr [.null])], List.perm_append_singleton _ [_, _], by simp, rfl⟩
    obtain ⟨-, haccepted, -⟩ := hread _ _ _ hgiven (Json.spaced_pretty (by simp))
    refine haccepted ⟨by decide, by decide, by decide, ?_⟩
    rintro factor ⟨⟩
    decide
  case zero =>
    have hgiven : Settings.Spelt { fanOut := some (.adaptive 0) }
        (.record [("fan_out", .arr [.text "adaptive", .ofNat 0])]) :=
      .intro .none (.some (.adaptiveItems ⟨by decide, rfl⟩)) .none .none .none .none (Json.arranges_given _)
    obtain ⟨-, -, hrefused⟩ := hread _ _ _ hgiven (Json.spaced_pretty (by simp))
    exact hrefused fun h => Nat.lt_irrefl 0 (h.factor 0 rfl)

end Config

end PatternCount
