import PatternCount.Proofs.Plan.Lookups
import PatternCount.Word

/-!
# Making a plan by index

Whether levels make a plan is found out by looking at other levels, and what the levels have to provide is entered
in a table. In `Level.check` and `LevelInfo.ofLevels` a look at a level that is not there finds nothing. Here the
same is written so that it would be a fault: every look is by `Fault.index`, a base chain is walked one level after
another, and numbers are subtracted by `Word.checkedSub`.

There is never a fault, whatever the levels (`Plan.makeAt_eq`). What is looked at by the check is a level that an
earlier test has found to be there: `check` goes through the references of a level from its base on, so that a chain
is walked from a base only once the base is known to be an earlier level. What is entered in the table belongs to
levels that have passed the check.
-/

namespace PatternCount

/-- Why a check stops. -/
inductive Stop (ε : Type) where
  | fault (f : Fault)
  | refused (e : ε)

namespace Stop

variable {ε ε' α β : Type}

def map (f : ε → ε') : Stop ε → Stop ε'
  | .fault f' => .fault f'
  | .refused e => .refused (f e)

/-- A check that may find something wrong, and does not fault. -/
def ofCheck (x : Except ε α) : Except (Stop ε) α := x.mapError refused

/-- A computation that may fault, and finds nothing wrong. -/
def ofLook (x : Except Fault α) : Except (Stop ε) α := x.mapError fault

def ensure (p : Prop) [Decidable p] (e : ε) : Except (Stop ε) Unit := if p then .ok () else .error (.refused e)

theorem ofCheck_bind (x : Except ε α) (f : α → Except ε β) :
    (ofCheck x >>= fun a => ofCheck (f a)) = ofCheck (x >>= f) := by
  cases x <;> rfl

theorem ofLook_ok_bind (a : α) (f : α → Except (Stop ε) β) : (ofLook (.ok a) >>= f) = f a := rfl

theorem ensure_bind_congr {p : Prop} [Decidable p] {e : ε} {f g : Unit → Except (Stop ε) β}
    (h : p → f () = g ()) :
    (ensure p e >>= f) = ensure p e >>= g := by
  by_cases hp : p
  · rw [ensure, if_pos hp]
    exact h hp
  · rw [ensure, if_neg hp]
    rfl

theorem ensure_and_bind {p q : Prop} [Decidable p] [Decidable q] {e : ε} {f : Unit → Except (Stop ε) β} :
    (ensure (p ∧ q) e >>= f) = ensure p e >>= fun _ => ensure q e >>= f := by
  by_cases hp : p <;> by_cases hq : q <;> simp [ensure, hp, hq, bind, Except.bind]

theorem ofCheck_refuse {p : Prop} [Decidable p] {e : ε} {x : Except ε Unit} :
    ofCheck (if ¬p then .error e else x) = ensure p e >>= fun _ => ofCheck x := by
  by_cases hp : p
  · rw [if_neg (not_not_intro hp), ensure, if_pos hp]
    rfl
  · rw [if_pos hp, ensure, if_neg hp]
    rfl

theorem ofCheck_accept {p : Prop} [Decidable p] {e : ε} : ofCheck (if p then .ok () else .error e) = ensure p e := by
  unfold ensure
  split <;> rfl

theorem mapError_ofCheck (x : Except ε α) (f : ε → ε') :
    (ofCheck x).mapError (map f) = ofCheck (x.mapError f) := by
  cases x <;> rfl

end Stop

namespace Level

/-! ## The check -/

section Checks

variable (levels : Array Level)

/-- Whether level `c` is met by following bases from level `k`. -/
def onChainAt (c k : Nat) : Except Fault Bool := do
  let level ← Fault.index levels k
  if k = c then
    return true
  match level.candidates.base with
  | .candidates q => if q < k then onChainAt c q else return false
  | _ => return false
termination_by k

def isCachingAt (c : Nat) : Except Fault Bool := do
  return (← Fault.index levels c).cache.isSome

/-- The running set, whose base is given, lies within the candidates of level `c`. -/
def checkWithinAt (c : Nat) : (base : SetRef) → Except (Stop RefError) Unit
  | .candidates q => do Stop.ensure (← Stop.ofLook (onChainAt levels c q)) (.baseOutsideCache c q)
  | _ => .error (.refused .lookupWithoutCandidates)

def checkRefAt (k : Nat) (base : SetRef) : SetRef → Except (Stop RefError) Unit
  | .all => .error (.refused .allAsOperand)
  | .adjacency p => Stop.ensure (p < k) (.unboundAdjacency p)
  | .candidates l => Stop.ensure (l < k) (.laterCandidates l)
  | .cached c p => do
      Stop.ensure (p < k) (.unboundLookup p)
      Stop.ensure (1 ≤ c ∧ c ≤ p) (.noUsableCache c p)
      Stop.ensure (← Stop.ofLook (isCachingAt levels c)) (.noUsableCache c p)
      Stop.ensure (← Stop.ofLook (onChainAt levels c p)) (.vertexOutsideCache c p)
      checkWithinAt levels c base

def checkRefsAt (k : Nat) (base : SetRef) : List SetRef → Except (Stop PlanError) Unit
  | [] => .ok ()
  | r :: rest => do
      (checkRefAt levels k base r).mapError (.map (.badReference k))
      checkRefsAt k base rest

def checkParentAt (k : Nat) : Option Nat → Except (Stop PlanError) Unit
  | none => .ok ()
  | some parent => do
      Stop.ensure (parent < k) (.parentNotCaching k parent)
      Stop.ensure (← Stop.ofLook (isCachingAt levels parent)) (.parentNotCaching k parent)
      Stop.ensure (← Stop.ofLook (onChainAt levels parent k)) (.parentOutsideChain k parent)

/-- The last level is level `last`. -/
def checkCacheAt (last k : Nat) : Option CacheSpec → Except (Stop PlanError) Unit
  | none => .ok ()
  | some spec => do
      Stop.ensure (k < last) (.cachingLast k)
      checkParentAt levels k spec.parent

def checkInnerAt (last k : Nat) (level : Level) : Except (Stop PlanError) Unit := do
  let e := level.candidates
  Stop.ofCheck (checkBase k e.base)
  checkRefsAt levels k e.base e.refs
  Stop.ofCheck (checkConstraints k e.constrained)
  checkCacheAt levels last k level.cache

def checkFromAt (last k : Nat) : List Level → Except (Stop PlanError) Unit
  | [] => .ok ()
  | level :: rest => do
      checkInnerAt levels last k level
      checkFromAt last (k + 1) rest

def checkAt : Except (Stop PlanError) Unit := do
  Stop.ensure (levels.size ≠ 0) .noLevels
  let root ← Stop.ofLook (Fault.index levels 0)
  Stop.ofCheck (checkRoot root)
  let last ← Stop.ofLook (Word.checkedSub levels.size 1)
  checkFromAt levels last 1 (levels.toList.drop 1)

end Checks

/-! ## The check does not fault -/

section Outcomes

variable {levels : Array Level} {k : Nat}

theorem baseLevel?_eq (hk : k < levels.size) :
    baseLevel? levels k = match levels[k].candidates.base with
      | .candidates q => some q
      | _ => none := by
  rw [baseLevel?, Array.getElem?_eq_getElem hk]
  rcases levels[k] with ⟨⟨base, _, _, _, _⟩, _⟩
  cases base <;> rfl

/-- Where there is a level, there are all levels on its base chain. -/
theorem onChainAt_eq {c : Nat} (hk : k < levels.size) :
    onChainAt levels c k = .ok (decide (c ∈ baseChain levels k)) := by
  induction k using Nat.strongRecOn with
  | ind k ih =>
      rw [onChainAt, Fault.index_eq_ok hk, baseChain, baseLevel?_eq hk]
      simp only [bind, Except.bind, pure, Except.pure]
      have hmem : ∀ chain, chain = k :: chain.tail → (c ∈ chain ↔ k = c ∨ c ∈ chain.tail) := by
        intro chain hchain
        rw [hchain, List.mem_cons, List.tail_cons, @eq_comm _ c]
      by_cases hkc : k = c
      · rw [if_pos hkc]
        congr 1
        refine (decide_eq_true ?_).symm
        split
        · split <;> simp [hkc]
        · simp [hkc]
      · rw [if_neg hkc]
        cases levels[k].candidates.base with
        | candidates q =>
            by_cases hq : q < k
            · simp only [if_pos hq]
              rw [ih q hq (Nat.lt_trans hq hk)]
              simp [Ne.symm hkc]
            · simp [if_neg hq, Ne.symm hkc]
        | all => simp [Ne.symm hkc]
        | adjacency p => simp [Ne.symm hkc]
        | cached c' p => simp [Ne.symm hkc]

theorem isCachingAt_eq {c : Nat} (hc : c < levels.size) : isCachingAt levels c = .ok (isCaching levels c) := by
  rw [isCachingAt, isCaching, Fault.index_eq_ok hc, Array.getElem?_eq_getElem hc]
  rfl

theorem checkWithinAt_eq {c : Nat} {base : SetRef} (hbase : ∀ q, base = .candidates q → q < levels.size) :
    checkWithinAt levels c base = Stop.ofCheck (match base with
      | .candidates q => if c ∈ baseChain levels q then .ok () else .error (.baseOutsideCache c q)
      | _ => .error .lookupWithoutCandidates) := by
  cases base with
  | candidates q =>
      rw [checkWithinAt, onChainAt_eq (hbase q rfl), Stop.ofLook_ok_bind, Stop.ofCheck_accept]
      simp only [decide_eq_true_eq]
  | all => rfl
  | adjacency p => rfl
  | cached c' p => rfl

/-- A reference is looked into once its base is known to be an earlier level. -/
theorem checkRefAt_eq (hk : k < levels.size) {base : SetRef} (hbase : ∀ q, base = .candidates q → q < k)
    (r : SetRef) : checkRefAt levels k base r = Stop.ofCheck (checkRef levels k base r) := by
  cases r with
  | all => rfl
  | adjacency p => exact Stop.ofCheck_accept.symm
  | candidates l => exact Stop.ofCheck_accept.symm
  | cached c p =>
      have hwithin := checkWithinAt_eq (c := c) fun q hq => Nat.lt_trans (hbase q hq) hk
      show _ = Stop.ofCheck (if ¬p < k then _ else if ¬(1 ≤ c ∧ c ≤ p ∧ isCaching levels c = true) then _
        else if ¬c ∈ baseChain levels p then _ else _)
      rw [checkRefAt, Stop.ofCheck_refuse]
      refine Stop.ensure_bind_congr fun hp => ?_
      simp only [← and_assoc (a := 1 ≤ c)]
      rw [Stop.ofCheck_refuse, Stop.ensure_and_bind (p := 1 ≤ c ∧ c ≤ p) (q := isCaching levels c = true)]
      refine Stop.ensure_bind_congr fun hc => ?_
      rw [isCachingAt_eq (by omega), Stop.ofLook_ok_bind]
      refine Stop.ensure_bind_congr fun _ => ?_
      rw [onChainAt_eq (by omega), Stop.ofLook_ok_bind, Stop.ofCheck_refuse]
      simp only [decide_eq_true_eq]
      exact Stop.ensure_bind_congr fun _ => hwithin

/-- The base of a level is its first reference, so that the others are looked into only if the base is an earlier
level. -/
theorem checkRefsAt_eq (hk : k < levels.size) {base : SetRef} (hbase : ∀ q, base = .candidates q → q < k) :
    ∀ refs : List SetRef, checkRefsAt levels k base refs = Stop.ofCheck (checkRefs levels k base refs)
  | [] => rfl
  | r :: rest => by
      rw [checkRefsAt, checkRefs, checkRefAt_eq hk hbase, Stop.mapError_ofCheck, ← Stop.ofCheck_bind]
      simp only [checkRefsAt_eq hk hbase rest]

theorem checkRefsAt_base_eq (hk : k < levels.size) (base : SetRef) (rest : List SetRef) :
    checkRefsAt levels k base (base :: rest) = Stop.ofCheck (checkRefs levels k base (base :: rest)) := by
  by_cases hbase : ∀ q, base = .candidates q → q < k
  · exact checkRefsAt_eq hk hbase (base :: rest)
  · obtain ⟨q, rfl, hq⟩ : ∃ q, base = .candidates q ∧ ¬q < k := by simpa using hbase
    rw [checkRefsAt, checkRefs, checkRefAt, checkRef, Stop.ensure, if_neg hq, if_neg hq]
    rfl

theorem checkParentAt_eq (hk : k < levels.size) (parent? : Option Nat) :
    checkParentAt levels k parent? = Stop.ofCheck (checkParent levels k parent?) := by
  cases parent? with
  | none => rfl
  | some parent =>
      show _ = Stop.ofCheck (if ¬(parent < k ∧ isCaching levels parent = true) then _ else
        if parent ∈ baseChain levels k then _ else _)
      rw [checkParentAt, Stop.ofCheck_refuse, Stop.ensure_and_bind]
      refine Stop.ensure_bind_congr fun hparent => ?_
      rw [isCachingAt_eq (by omega), Stop.ofLook_ok_bind]
      refine Stop.ensure_bind_congr fun _ => ?_
      rw [onChainAt_eq hk, Stop.ofLook_ok_bind, Stop.ofCheck_accept]
      simp only [decide_eq_true_eq]

theorem checkCacheAt_eq (hk : k < levels.size) (cache : Option CacheSpec) :
    checkCacheAt levels (levels.size - 1) k cache = Stop.ofCheck (checkCache levels k cache) := by
  cases cache with
  | none => rfl
  | some spec =>
      rw [checkCacheAt, checkCache, Stop.ensure]
      by_cases hlast : k + 1 < levels.size
      · rw [if_pos hlast, if_pos (by omega)]
        exact checkParentAt_eq hk spec.parent
      · rw [if_neg hlast, if_neg (by omega)]
        rfl

theorem checkInnerAt_eq (hk : k < levels.size) (level : Level) :
    checkInnerAt levels (levels.size - 1) k level = Stop.ofCheck (checkInner levels k level) := by
  have hrefs := checkRefsAt_base_eq hk level.candidates.base (level.candidates.ops.map SetOp.operand)
  simp only [checkInnerAt, checkInner, SetExpr.refs, hrefs, checkCacheAt_eq hk, Stop.ofCheck_bind]

theorem checkFromAt_eq : ∀ {rest : List Level} {k : Nat}, k + rest.length ≤ levels.size →
    checkFromAt levels (levels.size - 1) k rest = Stop.ofCheck (checkFrom levels k rest)
  | [], _, _ => rfl
  | level :: rest, k, h => by
      rw [List.length_cons] at h
      rw [checkFromAt, checkFrom, checkInnerAt_eq (by omega), checkFromAt_eq (by omega), Stop.ofCheck_bind]

/-- The check never looks at a level that is not there. -/
theorem checkAt_eq (levels : Array Level) : checkAt levels = Stop.ofCheck (check levels) := by
  obtain ⟨list⟩ := levels
  cases list with
  | nil => rfl
  | cons root rest =>
      have hsub : Word.checkedSub (root :: rest).toArray.size 1 = .ok ((root :: rest).toArray.size - 1) :=
        if_pos (by simp)
      rw [checkAt, Stop.ensure, if_pos (by simp), hsub]
      show (Stop.ofCheck (checkRoot root) >>= fun _ => checkFromAt _ _ 1 rest) = _
      rw [checkFromAt_eq (by simp [Nat.add_comm]), Stop.ofCheck_bind]
      rfl

end Outcomes

end Level

namespace LevelInfo

/-! ## The table -/

def modifyAt (infos : Array LevelInfo) (i : Nat) (f : LevelInfo → LevelInfo) : Except Fault (Array LevelInfo) := do
  let _ ← Fault.index infos i
  return infos.modify i f

/-- A level does not ask its own cache for its vertex. -/
def noteLookupAt (c p : Nat) (infos : Array LevelInfo) : Except Fault (Array LevelInfo) :=
  if p = c then .ok infos else modifyAt infos p (addLookup c)

def noteRefAt (k : Nat) (infos : Array LevelInfo) : SetRef → Except Fault (Array LevelInfo)
  | .cached c p => do
      let infos ← noteLookupAt c p infos
      let distance ← Word.checkedSub k c
      modifyAt infos c (addDistance distance)
  | _ => .ok infos

/-- The first of the listed levels is level `k`. -/
def noteRefsAt (k : Nat) (infos : Array LevelInfo) : List Level → Except Fault (Array LevelInfo)
  | [] => .ok infos
  | level :: rest => do
      let infos ← level.candidates.refs.foldlM (noteRefAt k) infos
      noteRefsAt (k + 1) infos rest

def noteParentAt (k : Nat) (infos : Array LevelInfo) : Option CacheSpec → Except Fault (Array LevelInfo)
  | some ⟨some parent⟩ => modifyAt infos k (addLookup parent)
  | _ => .ok infos

def noteParentsAt (k : Nat) (infos : Array LevelInfo) : List Level → Except Fault (Array LevelInfo)
  | [] => .ok infos
  | level :: rest => do
      let infos ← noteParentAt k infos level.cache
      noteParentsAt (k + 1) infos rest

def ofLevelsAt (levels : Array Level) : Except Fault (Array LevelInfo) := do
  let infos ← noteRefsAt 0 (Array.replicate levels.size empty) levels.toList
  noteParentsAt 0 infos levels.toList

/-! ## The table of a valid plan does not fault -/

variable {k : Nat} {infos : Array LevelInfo}

theorem modifyAt_eq {i : Nat} (h : i < infos.size) (f : LevelInfo → LevelInfo) :
    modifyAt infos i f = .ok (infos.modify i f) := by
  rw [modifyAt, Fault.index_eq_ok h]
  rfl

/-- What a reference of level `k` needs has a place in a table of `size` levels. -/
def Placed (size k : Nat) (r : SetRef) : Prop := ∀ c p, r = .cached c p → p < size ∧ c ≤ p ∧ p < k

theorem noteRefAt_eq {r : SetRef} (hr : Placed infos.size k r) : noteRefAt k infos r = .ok (noteRef k infos r) := by
  cases r with
  | cached c p =>
      obtain ⟨hp, hcp, hpk⟩ := hr c p rfl
      have hlookup : noteLookupAt c p infos = .ok (if p = c then infos else infos.modify p (addLookup c)) := by
        rw [noteLookupAt, modifyAt_eq hp]
        split <;> rfl
      have hsize : c < (if p = c then infos else infos.modify p (addLookup c)).size := by
        split
        · omega
        · rw [Array.size_modify]
          omega
      rw [noteRefAt, noteRef, hlookup, Word.checkedSub, if_pos (show c ≤ k by omega)]
      exact modifyAt_eq hsize _
  | all => rfl
  | adjacency p => rfl
  | candidates l => rfl

theorem foldlM_noteRefAt : ∀ {refs : List SetRef} {infos : Array LevelInfo},
    (∀ r ∈ refs, Placed infos.size k r) →
      refs.foldlM (noteRefAt k) infos = .ok (refs.foldl (noteRef k) infos)
  | [], _, _ => rfl
  | r :: rest, infos, h => by
      obtain ⟨hr, hrest⟩ := List.forall_mem_cons.mp h
      rw [List.foldlM_cons, List.foldl_cons, noteRefAt_eq hr]
      exact foldlM_noteRefAt fun r' hr' => by
        rw [size_noteRef]
        exact hrest r' hr'

theorem noteRefsAt_eq : ∀ {levels : List Level} {k : Nat} {infos : Array LevelInfo},
    (∀ i level, levels[i]? = some level → ∀ r ∈ level.candidates.refs, Placed infos.size (k + i) r) →
      noteRefsAt k infos levels = .ok (noteRefs k infos levels)
  | [], _, _, _ => rfl
  | level :: rest, k, infos, h => by
      have hsize := (noteRef_foldl (k := k) (d := 0) (p := 0) level.candidates.refs infos).1
      have hfirst : ∀ r ∈ level.candidates.refs, Placed infos.size k r := h 0 level rfl
      rw [noteRefsAt, noteRefs, foldlM_noteRefAt hfirst]
      refine noteRefsAt_eq fun i level' hi r hr => ?_
      rw [hsize, Nat.add_right_comm]
      exact h (i + 1) level' hi r hr

theorem noteParentsAt_eq : ∀ {levels : List Level} {k : Nat} {infos : Array LevelInfo},
    k + levels.length ≤ infos.size → noteParentsAt k infos levels = .ok (noteParents k infos levels)
  | [], _, _, _ => rfl
  | level :: rest, k, infos, h => by
      rw [List.length_cons] at h
      obtain ⟨infos', hinfos', hsize, hparents⟩ : ∃ infos', noteParentAt k infos level.cache = .ok infos' ∧
          infos'.size = infos.size ∧ noteParents k infos (level :: rest) = noteParents (k + 1) infos' rest := by
        rw [noteParents]
        rcases level.cache with _ | ⟨_ | parent⟩
        · exact ⟨infos, rfl, rfl, rfl⟩
        · exact ⟨infos, rfl, rfl, rfl⟩
        · exact ⟨_, modifyAt_eq (by omega) _, Array.size_modify .., rfl⟩
      rw [noteParentsAt, hinfos', hparents]
      exact noteParentsAt_eq (by omega)

/-- What is noted of valid levels has a place in the table. -/
theorem ofLevelsAt_eq {levels : Array Level} (h : Level.Valid levels) :
    ofLevelsAt levels = .ok (ofLevels levels) := by
  have hrefs : ∀ i level, levels.toList[i]? = some level → ∀ r ∈ level.candidates.refs,
      Placed (Array.replicate levels.size empty).size (0 + i) r := by
    rintro i level hi r hr c p rfl
    rw [Array.getElem?_toList] at hi
    rw [Array.size_replicate, Nat.zero_add]
    obtain ⟨hlt, -⟩ := Array.getElem?_eq_some_iff.mp hi
    obtain ⟨hp, ⟨-, hcp, -⟩, -⟩ := h.cached_ref hi hr
    exact ⟨Nat.lt_trans hp hlt, hcp, hp⟩
  have hsize := (mem_lookupsAt_noteRefs (d := 0) (p := 0) levels.toList (k := 0)
    (Array.replicate levels.size empty)).1
  rw [ofLevelsAt, noteRefsAt_eq hrefs]
  refine noteParentsAt_eq (Nat.le_of_eq ?_)
  rw [hsize, Array.size_replicate, Nat.zero_add, Array.length_toList]

end LevelInfo

namespace Plan

/-- What the levels of a plan have to provide, for levels that make a plan. -/
def makeAt (levels : Array Level) : Except (Stop PlanError) (Array LevelInfo) := do
  Level.checkAt levels
  Stop.ofLook (LevelInfo.ofLevelsAt levels)

/-- Making a plan never faults. -/
theorem makeAt_eq (levels : Array Level) : makeAt levels = Stop.ofCheck ((ofLevels levels).map info) := by
  rw [makeAt, Level.checkAt_eq]
  unfold ofLevels
  split
  · next h =>
      have hcheck : Stop.ofCheck (Level.check levels) = .ok () := congrArg Stop.ofCheck h
      rw [hcheck, LevelInfo.ofLevelsAt_eq (Level.check_eq_ok_iff.mp h)]
      rfl
  · next e h =>
      have hcheck : Stop.ofCheck (Level.check levels) = .error (.refused e) := congrArg Stop.ofCheck h
      rw [hcheck]
      rfl

end Plan

end PatternCount
