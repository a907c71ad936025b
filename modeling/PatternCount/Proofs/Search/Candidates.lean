import PatternCount.Proofs.Search.References
import PatternCount.Proofs.Search.Resolved

/-!
# Candidate sets are what the plan means

`Search.evaluate` makes the candidates of a level, and `Search.countCandidates` counts them without making the last
set. What both come to is a list that is read off the sets and the vertices at hand (`SetExpr.survivors`). On frames
that are as `Entered` says, these sets and vertices are there, and the list has the meaning of the level as its members
(`Entered.resolves`): an operand need only be right about the base, and the base is right about everything.
-/

namespace PatternCount

theorem SetOp.spares_iff_keeps {op : SetOp} {operand : VertexSet} {g : HostGraph} {bound : Nat → Nat}
    {sets : Nat → Set Nat} {v : Nat} (h : v ∈ operand ↔ v ∈ op.operand.meaning g bound sets) :
    op.Spares operand v ↔ op.Keeps g bound sets v := by
  cases op with
  | intersect r => exact h
  | subtract r => exact not_congr h

namespace Search

variable {s : Search} {bound : Nat → Nat} {k : Nat} {frames : List Frame}

/-- The frames have what a level refers to, and what it makes of that is its meaning. -/
theorem Entered.resolves (h : s.Entered bound k frames) (hg : s.graph.Closed) {level : Level}
    (hlevel : Level.Good s.plan.levels k level) :
    ∃ sets, s.Resolves frames level.candidates sets bound ∧ ∀ v,
      v ∈ level.candidates.survivors sets bound
        ↔ v ∈ level.candidates.meaning s.graph bound (s.earlier bound k) := by
  have hrefs : ∀ r ∈ level.candidates.refs, ∃ set, s.resolve frames r = .ok set ∧
      ∀ v ∈ level.candidates.base.meaning s.graph bound (s.earlier bound k),
        v ∈ set ↔ v ∈ r.meaning s.graph bound (s.earlier bound k) := fun r hr =>
    resolve_eq_ok h hg (hlevel.refs r hr)
  choose! sets hsets hmem using hrefs
  have hbase : ∀ v, v ∈ sets level.candidates.base
      ↔ v ∈ level.candidates.base.meaning s.graph bound (s.earlier bound k) := by
    obtain ⟨base, hresolve, hmemBase⟩ := resolve_base_eq_ok h hg hlevel
    obtain rfl := Except.ok.inj ((hsets _ List.mem_cons_self).symm.trans hresolve)
    exact hmemBase
  have hvertex : ∀ p ∈ level.candidates.constrained,
      ∃ frame, frameAt frames p = .ok frame ∧ frame.vertex = bound p := fun p hp => by
    obtain ⟨frame, hframe, hfits⟩ := h.fits p (hlevel.constrained p hp)
    exact ⟨frame, hframe, hfits.vertex⟩
  refine ⟨sets, ⟨hsets, hvertex⟩, ?_⟩
  intro v
  rw [SetExpr.mem_survivors, SetExpr.mem_meaning, SetExpr.mem_boundedMeaning, hbase]
  refine and_congr_right fun hv => and_congr_left fun _ => forall₂_congr fun op hop => ?_
  exact SetOp.spares_iff_keeps (hmem _ (List.mem_cons_of_mem _ (List.mem_map_of_mem hop)) v hv.1)

/-- The set that is made has the candidates of the level as its members. -/
theorem evaluate_eq_ok (h : s.Entered bound k frames) (hg : s.graph.Closed) {level : Level}
    (hlevel : Level.Good s.plan.levels k level) (b : Buffers) :
    ∃ (result : VertexSet) (b' : Buffers), s.evaluate frames level.candidates b = .ok b' ∧
      b'.set = result.members ∧
      ∀ v, v ∈ result ↔ v ∈ level.candidates.meaning s.graph bound (s.earlier bound k) := by
  obtain ⟨sets, hresolves, hmem⟩ := h.resolves hg hlevel
  obtain ⟨b', hevaluate, hset⟩ := hresolves.evaluate_eq_survivors b
  have hascending : Ascending b'.set.toList := hset ▸ level.candidates.ascending_survivors
  refine ⟨⟨b'.set, hascending⟩, b', hevaluate, rfl, ?_⟩
  intro v
  rw [← hmem v, ← VertexSet.mem_toList]
  exact iff_of_eq (congrArg (v ∈ ·) hset)

/-- The number that is counted is that of the candidates of the level. -/
theorem countCandidates_eq_ok (h : s.Entered bound k frames) (hg : s.graph.Closed) {level : Level}
    (hlevel : Level.Good s.plan.levels k level) (b : Buffers) :
    ∃ (result : VertexSet) (b' : Buffers),
      s.countCandidates frames level.candidates b = .ok (result.size, b') ∧
      ∀ v, v ∈ result ↔ v ∈ level.candidates.meaning s.graph bound (s.earlier bound k) := by
  obtain ⟨sets, hresolves, hmem⟩ := h.resolves hg hlevel
  obtain ⟨b', hcount⟩ := hresolves.countCandidates_eq_survivors b
  refine ⟨⟨(level.candidates.survivors sets bound).toArray, level.candidates.ascending_survivors⟩, b', hcount, ?_⟩
  intro v
  rw [← hmem v, ← VertexSet.mem_toList]
  rfl

end Search

end PatternCount
