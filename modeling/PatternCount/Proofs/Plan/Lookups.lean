import PatternCount.Plan.Lookups
import PatternCount.Proofs.Plan.Validity

/-!
# Which caches are asked for a vertex

`LevelInfo.ofLevels` goes through a plan twice and notes what it finds in the table of each level. Here the
lookups in that table are read off the plan: cache `c` is listed for level `p` exactly if some level asks it for
the vertex of level `p`, or if the cache of level `p` is narrowed from it (`mem_lookups_iff`). In a valid plan
every listed cache belongs to an earlier level on the base chain of `p` (`Valid.lookup`), so that it is there,
and holds the vertex, when it is asked.
-/

namespace PatternCount

namespace LevelInfo

/-- The caches that are asked for the vertex of level `p`, none if there is no such level. -/
def lookupsAt (infos : Array LevelInfo) (p : Nat) : List Nat :=
  match infos[p]? with
  | some info => info.lookups
  | none => []

/-- Before anything is noted, no table lists a cache. -/
theorem lookupsAt_replicate (n p : Nat) : lookupsAt (Array.replicate n empty) p = [] := by
  rw [lookupsAt, Array.getElem?_replicate]
  by_cases hp : p < n
  · rw [if_pos hp]
    rfl
  · rw [if_neg hp]

/-- A table stays as it is, or is the one that is changed. -/
theorem getElem?_modify_cases (infos : Array LevelInfo) (q p : Nat) (f : LevelInfo → LevelInfo) :
    (infos.modify q f)[p]? = infos[p]? ∨ ∃ info, infos[p]? = some info ∧ (infos.modify q f)[p]? = some (f info) := by
  rw [Array.getElem?_modify]
  split
  · cases hinfo : infos[p]? with
    | none => exact .inl rfl
    | some info => exact .inr ⟨info, rfl, rfl⟩
  · exact .inl rfl

/-! ## One reference -/

theorem mem_addLookup {c d : Nat} {info : LevelInfo} :
    d ∈ (addLookup c info).lookups ↔ d ∈ info.lookups ∨ d = c := by
  unfold addLookup
  split
  · next h => exact ⟨Or.inl, fun hd => hd.elim id fun heq => heq ▸ h⟩
  · simp

theorem mem_lookupsAt_modify_addLookup {infos : Array LevelInfo} {c d p q : Nat} :
    d ∈ lookupsAt (infos.modify q (addLookup c)) p
      ↔ d ∈ lookupsAt infos p ∨ (p < infos.size ∧ p = q ∧ d = c) := by
  unfold lookupsAt
  rw [Array.getElem?_modify]
  rcases Nat.lt_or_ge p infos.size with hp | hp
  · rw [Array.getElem?_eq_getElem hp]
    by_cases hq : q = p
    · rw [if_pos hq]
      simp [mem_addLookup, hp, hq]
    · rw [if_neg hq]
      simp [Ne.symm hq]
  · rw [Array.getElem?_eq_none hp]
    simp [Nat.not_lt_of_le hp]

@[simp] theorem lookupsAt_modify_addDistance {infos : Array LevelInfo} {q n p : Nat} :
    lookupsAt (infos.modify q (addDistance n)) p = lookupsAt infos p := by
  rcases getElem?_modify_cases infos q p (addDistance n) with hsame | ⟨info, hinfo, hnew⟩
  · rw [lookupsAt, lookupsAt, hsame]
  · rw [lookupsAt, lookupsAt, hnew, hinfo]
    rfl

@[simp] theorem size_noteRef {k : Nat} {infos : Array LevelInfo} {r : SetRef} :
    (noteRef k infos r).size = infos.size := by
  cases r with
  | cached c p =>
      simp only [noteRef, Array.size_modify]
      split <;> simp
  | all => rfl
  | adjacency p => rfl
  | candidates l => rfl

theorem mem_lookupsAt_noteRef {k : Nat} {infos : Array LevelInfo} {r : SetRef} {d p : Nat} :
    d ∈ lookupsAt (noteRef k infos r) p
      ↔ d ∈ lookupsAt infos p ∨ (p < infos.size ∧ r = .cached d p ∧ p ≠ d) := by
  cases r with
  | cached c q =>
      simp only [noteRef, lookupsAt_modify_addDistance, SetRef.cached.injEq]
      split
      · next heq => exact ⟨Or.inl, fun h => h.elim id fun ⟨_, h1, h2⟩ => (h2 (by omega)).elim⟩
      · next hne =>
          rw [mem_lookupsAt_modify_addLookup]
          exact or_congr_right ⟨fun ⟨h1, h2, h3⟩ => ⟨h1, ⟨h3.symm, h2.symm⟩, by omega⟩,
            fun ⟨h1, ⟨h2, h3⟩, _⟩ => ⟨h1, h3.symm, h2.symm⟩⟩
  | all => simp [noteRef]
  | adjacency p => simp [noteRef]
  | candidates l => simp [noteRef]

/-! ## All references -/

theorem noteRef_foldl {k : Nat} {d p : Nat} : ∀ (refs : List SetRef) (infos : Array LevelInfo),
    (refs.foldl (noteRef k) infos).size = infos.size
      ∧ (d ∈ lookupsAt (refs.foldl (noteRef k) infos) p
        ↔ d ∈ lookupsAt infos p ∨ (p < infos.size ∧ .cached d p ∈ refs ∧ p ≠ d))
  | [], infos => ⟨rfl, by simp⟩
  | r :: rest, infos => by
      obtain ⟨hsize, hmem⟩ := noteRef_foldl (k := k) (d := d) (p := p) rest (noteRef k infos r)
      refine ⟨by rw [List.foldl_cons, hsize, size_noteRef], ?_⟩
      rw [List.foldl_cons, hmem, mem_lookupsAt_noteRef, size_noteRef, or_assoc, List.mem_cons,
        @eq_comm _ r]
      refine or_congr_right ⟨?_, ?_⟩
      · rintro (⟨h1, h2, h3⟩ | ⟨h1, h2, h3⟩)
        · exact ⟨h1, Or.inl h2, h3⟩
        · exact ⟨h1, Or.inr h2, h3⟩
      · rintro ⟨h1, h2 | h2, h3⟩
        · exact Or.inl ⟨h1, h2, h3⟩
        · exact Or.inr ⟨h1, h2, h3⟩

theorem mem_lookupsAt_noteRefs {d p : Nat} : ∀ (levels : List Level) {k : Nat} (infos : Array LevelInfo),
    (noteRefs k infos levels).size = infos.size
      ∧ (d ∈ lookupsAt (noteRefs k infos levels) p
        ↔ d ∈ lookupsAt infos p
          ∨ (p < infos.size ∧ (∃ level ∈ levels, .cached d p ∈ level.candidates.refs) ∧ p ≠ d))
  | [], _, infos => ⟨rfl, by simp [noteRefs]⟩
  | level :: rest, k, infos => by
      obtain ⟨hsize₁, hmem₁⟩ := noteRef_foldl (k := k) (d := d) (p := p) level.candidates.refs infos
      obtain ⟨hsize₂, hmem₂⟩ := mem_lookupsAt_noteRefs rest (k := k + 1)
        (level.candidates.refs.foldl (noteRef k) infos)
      rw [noteRefs]
      refine ⟨hsize₂.trans hsize₁, ?_⟩
      rw [hmem₂, hmem₁, hsize₁, or_assoc]
      refine or_congr_right ⟨?_, ?_⟩
      · rintro (⟨h1, h2, h3⟩ | ⟨h1, ⟨level', hmem, h2⟩, h3⟩)
        · exact ⟨h1, ⟨level, List.mem_cons_self, h2⟩, h3⟩
        · exact ⟨h1, ⟨level', List.mem_cons_of_mem _ hmem, h2⟩, h3⟩
      · rintro ⟨h1, ⟨level', hmem, h2⟩, h3⟩
        rcases List.mem_cons.mp hmem with rfl | hmem
        · exact Or.inl ⟨h1, h2, h3⟩
        · exact Or.inr ⟨h1, ⟨level', hmem, h2⟩, h3⟩

theorem mem_lookupsAt_noteParents {d p : Nat} :
    ∀ (levels : List Level) {k : Nat} (infos : Array LevelInfo), k + levels.length ≤ infos.size →
      (noteParents k infos levels).size = infos.size
        ∧ (d ∈ lookupsAt (noteParents k infos levels) p
          ↔ d ∈ lookupsAt infos p
            ∨ ∃ i level, levels[i]? = some level ∧ p = k + i ∧ level.cache = some ⟨some d⟩)
  | [], _, infos, _ => ⟨rfl, by simp [noteParents]⟩
  | level :: rest, k, infos, hlen => by
      have hlen' : k + rest.length + 1 ≤ infos.size := hlen
      obtain ⟨infos', hinfos, hsize, hmem⟩ : ∃ infos', noteParents k infos (level :: rest)
            = noteParents (k + 1) infos' rest ∧ infos'.size = infos.size
          ∧ (d ∈ lookupsAt infos' p
            ↔ d ∈ lookupsAt infos p ∨ (p = k ∧ level.cache = some ⟨some d⟩)) := by
        rw [noteParents]
        split
        · next parent hparent =>
            refine ⟨_, rfl, Array.size_modify .., ?_⟩
            rw [mem_lookupsAt_modify_addLookup, hparent]
            refine or_congr_right ⟨fun ⟨_, h2, h3⟩ => ⟨h2, by rw [h3]⟩, fun ⟨h1, h2⟩ => ?_⟩
            simp only [Option.some.injEq, CacheSpec.mk.injEq] at h2
            exact ⟨by omega, h1, h2.symm⟩
        · next hnone =>
            exact ⟨_, rfl, rfl, ⟨Or.inl, fun h => h.elim id fun h => (hnone d h.2).elim⟩⟩
      obtain ⟨hsize', hmem'⟩ := mem_lookupsAt_noteParents rest (k := k + 1) infos' (by omega)
      rw [hinfos]
      refine ⟨hsize'.trans hsize, ?_⟩
      rw [hmem', hmem, or_assoc]
      refine or_congr_right ⟨?_, ?_⟩
      · rintro (⟨h1, h2⟩ | ⟨i, level', hi, hp, hcache⟩)
        · exact ⟨0, level, rfl, h1, h2⟩
        · exact ⟨i + 1, level', hi, by omega, hcache⟩
      · rintro ⟨i, level', hi, hp, hcache⟩
        cases i with
        | zero =>
            obtain rfl := Option.some.inj hi
            exact Or.inl ⟨hp, hcache⟩
        | succ i => exact Or.inr ⟨i, level', hi, by omega, hcache⟩

theorem size_ofLevels (levels : Array Level) : (ofLevels levels).size = levels.size := by
  have hrefs := (mem_lookupsAt_noteRefs (d := 0) (p := 0) levels.toList (k := 0)
    (Array.replicate levels.size empty)).1
  rw [Array.size_replicate] at hrefs
  rw [← hrefs, ofLevels]
  refine (mem_lookupsAt_noteParents (d := 0) (p := 0) _ _ (Nat.le_of_eq ?_)).1
  rw [hrefs, Array.length_toList, Nat.zero_add]

/-- Cache `c` is asked for the vertex of level `p` by some level, or by the cache of level `p` itself. -/
theorem mem_lookups_iff {levels : Array Level} {c p : Nat} :
    c ∈ lookupsAt (ofLevels levels) p ↔
      (p < levels.size ∧ (∃ level ∈ levels.toList, .cached c p ∈ level.candidates.refs) ∧ p ≠ c)
        ∨ ∃ level, levels[p]? = some level ∧ level.cache = some ⟨some c⟩ := by
  obtain ⟨hsize, hrefs⟩ := mem_lookupsAt_noteRefs (d := c) (p := p) levels.toList (k := 0)
    (Array.replicate levels.size empty)
  rw [Array.size_replicate] at hsize hrefs
  have hempty : c ∉ lookupsAt (Array.replicate levels.size empty) p := by
    rw [lookupsAt_replicate]
    exact List.not_mem_nil
  have hlen : 0 + levels.toList.length = (noteRefs 0 (Array.replicate levels.size empty)
      levels.toList).size := by
    rw [hsize, Array.length_toList, Nat.zero_add]
  rw [ofLevels, (mem_lookupsAt_noteParents _ _ (Nat.le_of_eq hlen)).2, hrefs, or_iff_right hempty]
  refine or_congr_right ⟨?_, ?_⟩
  · rintro ⟨i, level, hi, hp, hcache⟩
    obtain rfl : p = i := by omega
    exact ⟨level, by rw [← Array.getElem?_toList]; exact hi, hcache⟩
  · rintro ⟨level, hlevel, hcache⟩
    exact ⟨p, level, by rw [Array.getElem?_toList]; exact hlevel, by omega, hcache⟩

end LevelInfo

namespace Level

theorem mem_toList_iff {levels : Array Level} {level : Level} :
    level ∈ levels.toList ↔ ∃ k : Nat, levels[k]? = some level := by
  rw [Array.mem_toList_iff, Array.mem_iff_getElem?]

/-- In a valid plan a cache that is asked for the vertex of level `p` is that of an earlier level on the base
chain of `p`. -/
theorem Valid.lookup {levels : Array Level} (h : Valid levels) {c p : Nat}
    (hc : c ∈ LevelInfo.lookupsAt (LevelInfo.ofLevels levels) p) :
    c < p ∧ isCaching levels c = true ∧ c ∈ baseChain levels p := by
  rcases LevelInfo.mem_lookups_iff.mp hc with ⟨-, ⟨level, hlevel, href⟩, hne⟩ | ⟨level, hlevel, hcache⟩
  · obtain ⟨k, hk⟩ := mem_toList_iff.mp hlevel
    obtain ⟨-, ⟨-, hle, hcaching⟩, hchain⟩ := h.cached_ref hk href
    exact ⟨by omega, hcaching, hchain⟩
  · cases p with
    | zero =>
        rw [h.root] at hlevel
        obtain rfl := Option.some.inj hlevel
        cases hcache
    | succ p =>
        obtain ⟨⟨hlt, hcaching⟩, hchain⟩ :=
          ((h.inner _ level (by omega) hlevel).cache _ hcache).2 c rfl
        exact ⟨hlt, hcaching, hchain⟩

end Level

end PatternCount
