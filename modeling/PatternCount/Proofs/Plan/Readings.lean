import Mathlib.Data.List.Basic
import PatternCount.Proofs.Plan.Lookups

/-!
# How often a cache is read, and from how far

Beside the lookups, `LevelInfo.ofLevels` notes for each cache how many levels further in every reading of it is made.
`Level.distances` reads the same off the plan: level by level, one entry for each operand that is a row of the cache.
The table agrees with it (`distancesAt_ofLevels`), and lists no lookup twice (`nodup_lookupsAt_ofLevels`).

For a plan at hand, `Plan.lookups_and_distances` says all that its table holds for a level.
-/

namespace PatternCount

/-- The reference is to a row of the cache of level `c`. -/
def SetRef.readsCache (c : Nat) : SetRef → Bool
  | .cached c' _ => c' = c
  | _ => false

/-- For each reading of the cache of level `c`, how many levels further in it is made. -/
def Level.distances (levels : Array Level) (c : Nat) : List Nat :=
  levels.toList.zipIdx.flatMap fun (level, k) =>
    List.replicate (level.candidates.ops.countP fun op => op.operand.readsCache c) (k - c)

theorem SetRef.readsCache_iff {c : Nat} {r : SetRef} : r.readsCache c = true ↔ ∃ p, r = .cached c p := by
  cases r with
  | cached c' p => simp [readsCache]
  | all => simp [readsCache]
  | adjacency p => simp [readsCache]
  | candidates l => simp [readsCache]

namespace LevelInfo

variable {infos : Array LevelInfo} {k c p : Nat}

/-! ## No lookup twice -/

def Distinct (infos : Array LevelInfo) : Prop := ∀ p, (lookupsAt infos p).Nodup

theorem nodup_addLookup {info : LevelInfo} (h : info.lookups.Nodup) : (addLookup c info).lookups.Nodup := by
  unfold addLookup
  split
  · exact h
  · next hnew =>
      refine List.nodup_append.mpr ⟨h, List.pairwise_singleton .., fun a ha b hb hab => hnew ?_⟩
      rwa [← List.mem_singleton.mp hb, ← hab]

theorem Distinct.modify (h : Distinct infos) (q : Nat) : Distinct (infos.modify q (addLookup c)) := by
  intro p
  have hp := h p
  rcases getElem?_modify_cases infos q p (addLookup c) with hsame | ⟨info, hinfo, hnew⟩
  · rwa [lookupsAt, hsame]
  · rw [lookupsAt, hinfo] at hp
    rw [lookupsAt, hnew]
    exact nodup_addLookup hp

theorem Distinct.noteRef (h : Distinct infos) (r : SetRef) : Distinct (noteRef k infos r) := by
  cases r with
  | cached c q =>
      intro p
      simp only [LevelInfo.noteRef, lookupsAt_modify_addDistance]
      split
      · exact h p
      · exact h.modify q p
  | all => exact h
  | adjacency p => exact h
  | candidates l => exact h

theorem Distinct.noteRefs : ∀ (levels : List Level) {k : Nat} {infos : Array LevelInfo}, Distinct infos →
    Distinct (noteRefs k infos levels)
  | [], _, _, h => h
  | _ :: rest, _, _, h =>
      noteRefs rest (List.foldlRecOn _ _ h fun _ h r _ => h.noteRef r)

theorem Distinct.noteParents : ∀ (levels : List Level) {k : Nat} {infos : Array LevelInfo}, Distinct infos →
    Distinct (noteParents k infos levels)
  | [], _, _, h => h
  | level :: rest, k, infos, h => by
      rw [LevelInfo.noteParents]
      split
      · exact noteParents rest (h.modify k)
      · exact noteParents rest h

theorem nodup_lookupsAt_ofLevels (levels : Array Level) (p : Nat) : (lookupsAt (ofLevels levels) p).Nodup := by
  have hempty : Distinct (Array.replicate levels.size empty) := fun p => by
    rw [lookupsAt_replicate]
    exact List.nodup_nil
  exact ((hempty.noteRefs levels.toList).noteParents levels.toList) p

/-! ## Every reading once -/

/-- How far in the readings of the cache of level `c` are made, none if there is no such level. -/
def distancesAt (infos : Array LevelInfo) (c : Nat) : List Nat :=
  match infos[c]? with
  | some info => info.cacheDistances
  | none => []

@[simp] theorem distancesAt_modify_addLookup {q d : Nat} :
    distancesAt (infos.modify q (addLookup d)) c = distancesAt infos c := by
  rcases getElem?_modify_cases infos q c (addLookup d) with hsame | ⟨info, hinfo, hnew⟩
  · rw [distancesAt, distancesAt, hsame]
  · rw [distancesAt, distancesAt, hnew, hinfo]
    show (addLookup d info).cacheDistances = info.cacheDistances
    unfold addLookup
    split <;> rfl

theorem distancesAt_modify_addDistance {q n : Nat} (hc : c < infos.size) :
    distancesAt (infos.modify q (addDistance n)) c = distancesAt infos c ++ if q = c then [n] else [] := by
  unfold distancesAt
  rw [Array.getElem?_modify, Array.getElem?_eq_getElem hc]
  by_cases hq : q = c
  · rw [if_pos hq, if_pos hq]
    rfl
  · rw [if_neg hq, if_neg hq]
    exact (List.append_nil _).symm

theorem distancesAt_noteRef (hc : c < infos.size) (r : SetRef) :
    distancesAt (noteRef k infos r) c = distancesAt infos c ++ if r.readsCache c then [k - c] else [] := by
  cases r with
  | cached d q =>
      have hlookup : ∀ infos', infos' = (if q = d then infos else infos.modify q (addLookup d)) →
          infos'.size = infos.size ∧ distancesAt infos' c = distancesAt infos c := by
        rintro _ rfl
        split
        · exact ⟨rfl, rfl⟩
        · exact ⟨Array.size_modify .., distancesAt_modify_addLookup⟩
      obtain ⟨hsize, hsame⟩ := hlookup _ rfl
      rw [noteRef, distancesAt_modify_addDistance (hsize ▸ hc), hsame, SetRef.readsCache]
      by_cases hd : d = c <;> simp [hd]
  | all => exact (List.append_nil _).symm
  | adjacency p => exact (List.append_nil _).symm
  | candidates l => exact (List.append_nil _).symm

theorem distancesAt_foldl_noteRef : ∀ (refs : List SetRef) {infos : Array LevelInfo}, c < infos.size →
    distancesAt (refs.foldl (noteRef k) infos) c
      = distancesAt infos c ++ List.replicate (refs.countP (·.readsCache c)) (k - c)
  | [], infos, _ => (List.append_nil _).symm
  | r :: rest, infos, hc => by
      rw [List.foldl_cons, distancesAt_foldl_noteRef rest (size_noteRef.symm ▸ hc), distancesAt_noteRef hc,
        List.append_assoc, List.countP_cons]
      by_cases hr : r.readsCache c = true
      · rw [if_pos hr, if_pos hr, List.replicate_succ]
        rfl
      · rw [if_neg hr, if_neg hr]
        rfl

theorem distancesAt_noteRefs : ∀ (levels : List Level) {k : Nat} {infos : Array LevelInfo}, c < infos.size →
    distancesAt (noteRefs k infos levels) c = distancesAt infos c ++ (levels.zipIdx k).flatMap fun (level, k) =>
      List.replicate (level.candidates.refs.countP (·.readsCache c)) (k - c)
  | [], _, _, _ => (List.append_nil _).symm
  | level :: rest, k, infos, hc => by
      have hsize := (noteRef_foldl (k := k) (d := 0) (p := 0) level.candidates.refs infos).1
      rw [noteRefs, distancesAt_noteRefs rest (hsize.symm ▸ hc), distancesAt_foldl_noteRef _ hc, List.append_assoc,
        List.zipIdx_cons, List.flatMap_cons]

theorem distancesAt_noteParents : ∀ (levels : List Level) {k : Nat} {infos : Array LevelInfo},
    distancesAt (noteParents k infos levels) c = distancesAt infos c
  | [], _, _ => rfl
  | level :: rest, k, infos => by
      rw [noteParents, distancesAt_noteParents rest]
      split
      · exact distancesAt_modify_addLookup
      · rfl

end LevelInfo

namespace Level

variable {levels : Array Level} {c : Nat}

/-- The row of a cache is an operand, never the base. -/
theorem Valid.base_ne_cached (h : Valid levels) {k : Nat} {level : Level} (hlevel : levels[k]? = some level)
    (p : Nat) : level.candidates.base ≠ .cached c p := by
  cases k with
  | zero =>
      rw [h.root] at hlevel
      obtain rfl := Option.some.inj hlevel
      exact nofun
  | succ k =>
      rcases (h.inner _ level (Nat.succ_pos k) hlevel).base with ⟨q, hbase⟩ | ⟨q, hbase⟩ <;>
        · rw [hbase]
          exact nofun

theorem Valid.cached_mem_refs_iff (h : Valid levels) {k : Nat} {level : Level} (hlevel : levels[k]? = some level)
    {p : Nat} : .cached c p ∈ level.candidates.refs ↔ ∃ op ∈ level.candidates.ops, op.operand = .cached c p := by
  rw [SetExpr.refs, List.mem_cons, or_iff_right (h.base_ne_cached hlevel p).symm, List.mem_map]

/-- What is read from a cache is read further in than the cache, for the vertex of a level in between. -/
theorem Valid.reading (h : Valid levels) {k : Nat} {level : Level} (hlevel : levels[k]? = some level) {op : SetOp}
    (hop : op ∈ level.candidates.ops) {p : Nat} (hoperand : op.operand = .cached c p) :
    p < k ∧ (1 ≤ c ∧ c ≤ p ∧ isCaching levels c = true) ∧ c ∈ baseChain levels p :=
  h.cached_ref hlevel ((h.cached_mem_refs_iff hlevel).mpr ⟨op, hop, hoperand⟩)

/-- The cache of another level is listed for the vertex for which it is read. -/
theorem Valid.mem_lookupsAt (h : Valid levels) {k : Nat} {level : Level} (hlevel : levels[k]? = some level) {op : SetOp}
    (hop : op ∈ level.candidates.ops) {p : Nat} (hoperand : op.operand = .cached c p) (hne : p ≠ c) :
    c ∈ LevelInfo.lookupsAt (LevelInfo.ofLevels levels) p := by
  obtain ⟨hlt, -⟩ := Array.getElem?_eq_some_iff.mp hlevel
  have href := (h.cached_mem_refs_iff hlevel).mpr ⟨op, hop, hoperand⟩
  refine LevelInfo.mem_lookups_iff.mpr (.inl ⟨?_, ⟨level, mem_toList_iff.mpr ⟨k, hlevel⟩, href⟩, hne⟩)
  exact Nat.lt_trans (h.reading hlevel hop hoperand).1 hlt

theorem mem_distances {d : Nat} : d ∈ distances levels c ↔ ∃ (k : Nat) (level : Level), levels[k]? = some level ∧
    (∃ op ∈ level.candidates.ops, ∃ p, op.operand = .cached c p) ∧ d = k - c := by
  simp only [distances, List.mem_flatMap, List.mem_replicate, Prod.exists, List.mem_zipIdx_iff_getElem?,
    Array.getElem?_toList, ← Nat.pos_iff_ne_zero, List.countP_pos_iff, SetRef.readsCache_iff]
  exact ⟨fun ⟨level, k, hlevel, hop, hd⟩ => ⟨k, level, hlevel, hop, hd⟩,
    fun ⟨k, level, hlevel, hop, hd⟩ => ⟨level, k, hlevel, hop, hd⟩⟩

theorem Valid.distancesAt_ofLevels (h : Valid levels) (hc : c < levels.size) :
    LevelInfo.distancesAt (LevelInfo.ofLevels levels) c = distances levels c := by
  have hempty : LevelInfo.distancesAt (Array.replicate levels.size LevelInfo.empty) c = [] := by
    rw [LevelInfo.distancesAt, Array.getElem?_replicate, if_pos hc]
    rfl
  rw [LevelInfo.ofLevels, LevelInfo.distancesAt_noteParents,
    LevelInfo.distancesAt_noteRefs _ (Nat.lt_of_lt_of_eq hc Array.size_replicate.symm), hempty, List.nil_append,
    distances]
  refine List.flatMap_congr ?_
  rintro ⟨level, k⟩ hmem
  rw [List.mem_zipIdx_iff_getElem?, Array.getElem?_toList] at hmem
  have hbase : ¬level.candidates.base.readsCache c = true := fun hreads => by
    obtain ⟨p, hp⟩ := SetRef.readsCache_iff.mp hreads
    exact h.base_ne_cached hmem p hp
  show List.replicate (level.candidates.refs.countP _) (k - c) = List.replicate _ (k - c)
  rw [SetExpr.refs, List.countP_cons_of_neg hbase, List.countP_map]
  rfl

theorem Valid.not_isCaching_zero (h : Valid levels) : ¬isCaching levels 0 = true := by
  rw [isCaching, h.root]
  exact Bool.false_ne_true

end Level

namespace Plan

/-- What the table of a plan holds for level `l`. The caches that are asked for its vertex are listed once each; they are
those of other levels of which some operand is the row for position `l`, and the parent of its own cache. All of them
are caches of earlier levels on its base chain. How often its own cache is read is noted with one entry for each operand
that is a row of it, which says how many levels further in that is. -/
theorem lookups_and_distances (p : Plan) {l : Nat} (hl : l < p.depth) :
    ∃ info, p.info[l]? = some info ∧ info.lookups.Nodup ∧
      (∀ c, c ∈ info.lookups ↔
        (c ≠ l ∧ Level.isCaching p.levels c = true ∧
          ∃ (k : Nat) (level : Level), p.levels[k]? = some level ∧
            ∃ op ∈ level.candidates.ops, op.operand = .cached c l) ∨
        ∃ level, p.levels[l]? = some level ∧ level.cache = some ⟨some c⟩) ∧
      (∀ c ∈ info.lookups, (1 ≤ c ∧ c < l) ∧ Level.isCaching p.levels c = true ∧ c ∈ Level.baseChain p.levels l) ∧
      info.cacheDistances = Level.distances p.levels l ∧ (∀ d ∈ info.cacheDistances, 1 ≤ d) ∧
      (info.cacheDistances = [] ↔ ∀ (k : Nat) (level : Level), p.levels[k]? = some level →
        ∀ op ∈ level.candidates.ops, ∀ q, op.operand ≠ .cached l q) := by
  have hvalid := p.isValid
  have hsize : l < p.info.size := by
    rw [p.info_eq, LevelInfo.size_ofLevels]
    exact hl
  have hinfo : p.info[l]? = some p.info[l] := Array.getElem?_eq_getElem hsize
  have hlookups : p.info[l].lookups = LevelInfo.lookupsAt (LevelInfo.ofLevels p.levels) l := by
    rw [← p.info_eq, LevelInfo.lookupsAt, hinfo]
  have hdistances : p.info[l].cacheDistances = Level.distances p.levels l := by
    rw [← hvalid.distancesAt_ofLevels hl, ← p.info_eq, LevelInfo.distancesAt, hinfo]
  refine ⟨p.info[l], hinfo, ?_, fun c => ?_, fun c hc => ?_, hdistances, fun d hd => ?_, ?_⟩
  · rw [hlookups]
    exact LevelInfo.nodup_lookupsAt_ofLevels p.levels l
  · rw [hlookups]
    constructor
    · intro hc
      refine (LevelInfo.mem_lookups_iff.mp hc).imp_left ?_
      rintro ⟨-, ⟨level, hmem, href⟩, hne⟩
      obtain ⟨k, hk⟩ := Level.mem_toList_iff.mp hmem
      obtain ⟨op, hop, hoperand⟩ := (hvalid.cached_mem_refs_iff hk).mp href
      exact ⟨Ne.symm hne, (hvalid.lookup hc).2.1, k, level, hk, op, hop, hoperand⟩
    · rintro (⟨hne, -, k, level, hk, op, hop, hoperand⟩ | hparent)
      · exact hvalid.mem_lookupsAt hk hop hoperand (Ne.symm hne)
      · exact LevelInfo.mem_lookups_iff.mpr (.inr hparent)
  · rw [hlookups] at hc
    obtain ⟨hlt, hcaching, hchain⟩ := hvalid.lookup hc
    refine ⟨⟨Nat.one_le_iff_ne_zero.mpr ?_, hlt⟩, hcaching, hchain⟩
    rintro rfl
    exact hvalid.not_isCaching_zero hcaching
  · rw [hdistances] at hd
    obtain ⟨k, level, hk, ⟨op, hop, q, hoperand⟩, rfl⟩ := Level.mem_distances.mp hd
    obtain ⟨hq, ⟨-, hle, -⟩, -⟩ := hvalid.reading hk hop hoperand
    omega
  · rw [hdistances, List.eq_nil_iff_forall_not_mem]
    constructor
    · intro h k level hk op hop q hoperand
      exact h _ (Level.mem_distances.mpr ⟨k, level, hk, ⟨op, hop, q, hoperand⟩, rfl⟩)
    · intro h d hd
      obtain ⟨k, level, hk, ⟨op, hop, q, hoperand⟩, -⟩ := Level.mem_distances.mp hd
      exact h k level hk op hop q hoperand

/-- Two caches, of which the inner one is narrowed from the outer one. Level 3 reads the outer one twice for position 2,
whose cache asks it too, and is listed for it once. -/
theorem lookups_and_distances_narrowed :
    ∃ (p : Plan) (outer inner : LevelInfo),
      p.levels = #[⟨.ofBase .all, none⟩, ⟨.ofBase (.adjacency 0), some ⟨none⟩⟩,
        ⟨(SetExpr.ofBase (.candidates 1)).intersect (.cached 1 1), some ⟨some 1⟩⟩,
        ⟨(((SetExpr.ofBase (.candidates 2)).intersect (.cached 1 2)).intersect (.cached 2 2)).subtract (.cached 1 2),
          none⟩] ∧
      (1 < p.depth ∧ p.info[1]? = some outer ∧ outer.cacheDistances = [1, 2, 2] ∧ ∀ d ∈ outer.cacheDistances, 1 ≤ d) ∧
      2 < p.depth ∧ p.info[2]? = some inner ∧ inner.lookups.Nodup ∧ 1 ∈ inner.lookups ∧
        ∀ c ∈ inner.lookups, (1 ≤ c ∧ c < 2) ∧ Level.isCaching p.levels c = true ∧ c ∈ Level.baseChain p.levels 2 := by
  let levels : Array Level := #[⟨.ofBase .all, none⟩, ⟨.ofBase (.adjacency 0), some ⟨none⟩⟩,
    ⟨(SetExpr.ofBase (.candidates 1)).intersect (.cached 1 1), some ⟨some 1⟩⟩,
    ⟨(((SetExpr.ofBase (.candidates 2)).intersect (.cached 1 2)).intersect (.cached 2 2)).subtract (.cached 1 2), none⟩]
  let p : Plan := ⟨levels, LevelInfo.ofLevels levels, by decide +kernel, rfl⟩
  have hdistances : Level.distances levels 1 = [1, 2, 2] := by decide +kernel
  obtain ⟨outer, houter, -, -, -, hread, hpos, -⟩ := lookups_and_distances p (l := 1) (by decide)
  obtain ⟨inner, hinner, hnodup, hmem, hchain, -⟩ := lookups_and_distances p (l := 2) (by decide)
  exact ⟨p, outer, inner, rfl, ⟨by decide, houter, hread.trans hdistances, hpos⟩, by decide, hinner, hnodup,
    (hmem 1).mpr (.inr ⟨_, rfl, rfl⟩), hchain⟩

end Plan

end PatternCount
