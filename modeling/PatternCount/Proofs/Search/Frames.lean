import PatternCount.Proofs.AdjacencyCache.Rows
import PatternCount.Proofs.Plan.Lookups
import PatternCount.Proofs.Plan.Meaning
import PatternCount.Search.Count

/-!
# The frames of a branch

A search that has bound the positions below `k` carries one frame for each of them. `Entered s bound k frames`
says what these frames are: the frame of position `p` has the vertex `bound p`, taken from candidates that are
exactly the meaning of level `p`, and whatever was prepared there can be relied on. A cache, where one was
built, holds the edges among the candidates; the positions, where they were looked up, address the candidates
in the cache that they were looked up in.

The search starts with one frame (`Entered.root`), and each level it enters adds one (`Entered.push`). The
caches and positions are additions only: nothing is said about whether they are there.
-/

namespace PatternCount

/-- The cache holds the edges among these candidates. -/
structure AdjacencyCache.Covers (cache : AdjacencyCache) (g : HostGraph) (candidates : VertexSet) : Prop where
  vertices : cache.vertices = candidates
  holds : cache.Holds fun v w => g.Edge v w ∧ w ∈ candidates

/-- The listed positions are those of the members of `set` in the cache, in order. -/
structure AdjacencyCache.Addresses (cache : AdjacencyCache) (found : Array Nat) (set : VertexSet) : Prop where
  size : found.size = set.size
  position : ∀ i v : Nat, set.members[i]? = some v →
    ∃ j, found[i]? = some j ∧ cache.vertices.members[j]? = some v

namespace Search

variable (s : Search) (bound : Nat → Nat)

def meaning (k : Nat) : Set Nat := Level.meaning s.plan.levels s.graph bound k

def earlier (k : Nat) : Nat → Set Nat := Level.earlier s.plan.levels s.graph bound k

structure Fits (p : Nat) (frame : Frame) : Prop where
  vertex : frame.vertex = bound p
  index : frame.candidates.members[frame.index]? = some frame.vertex
  candidates : ∀ v, v ∈ frame.candidates ↔ v ∈ s.meaning bound p
  cache : ∀ cache, frame.cache = some cache → cache.Covers s.graph frame.candidates

/-- The positions of a frame address its candidates in the caches of the frames further out. -/
def Located (frames : List Frame) (p : Nat) (frame : Frame) : Prop :=
  ∀ (slot c : Nat) holder cache, (LevelInfo.lookupsAt s.plan.info p)[slot]? = some c →
    frameAt frames c = .ok holder → holder.cache = some cache →
      ∃ found, frame.positions[slot]? = some found ∧ cache.Addresses found frame.candidates

/-- The frames of the positions below `k`. -/
structure Entered (k : Nat) (frames : List Frame) : Prop where
  fits : ∀ p < k, ∃ frame, frameAt frames p = .ok frame ∧ s.Fits bound p frame
  located : ∀ p < k, ∀ frame, frameAt frames p = .ok frame → s.Located frames p frame

end Search

/-! ## Finding a frame -/

theorem frameAt_cons_self {frame : Frame} {outer : List Frame} :
    frameAt (frame :: outer) frame.level = .ok frame := by
  rw [frameAt, if_neg (Nat.lt_irrefl _), if_pos rfl]

theorem frameAt_cons_of_lt {frame : Frame} {outer : List Frame} {p : Nat} (h : p < frame.level) :
    frameAt (frame :: outer) p = frameAt outer p := by
  rw [frameAt, if_pos h]

namespace Search

variable {s : Search} {bound : Nat → Nat} {k : Nat} {frames : List Frame}

/-! ## One frame -/

theorem Fits.mem_meaning {p : Nat} {frame : Frame} (h : s.Fits bound p frame) :
    bound p ∈ s.meaning bound p := by
  rw [← h.vertex, ← h.candidates]
  exact VertexSet.mem_iff_getElem?.mpr ⟨_, h.index⟩

theorem Fits.lt_depth {p : Nat} {frame : Frame} (h : s.Fits bound p frame) : p < s.plan.levels.size := by
  rcases Nat.lt_or_ge p s.plan.levels.size with hp | hp
  · exact hp
  · exact (Level.not_mem_meaning hp h.mem_meaning).elim

/-- A frame stays right when later positions are bound. -/
theorem Fits.congr {p : Nat} {frame : Frame} (h : s.Fits bound p frame) {bound' : Nat → Nat}
    (hbound : ∀ i ≤ p, bound' i = bound i) : s.Fits bound' p frame where
  vertex := h.vertex.trans (hbound p (Nat.le_refl p)).symm
  index := h.index
  candidates v := by
    rw [h.candidates, meaning, meaning,
      Level.meaning_congr s.plan.isValid fun i hi => hbound i (Nat.le_of_lt hi)]
  cache := h.cache

/-! ## All frames -/

/-- The first frame, in which any vertex is bound. -/
theorem Entered.root {v : Nat} (hv : v < s.graph.vertexCount) :
    s.Entered (Function.update bound 0 v) 1 [s.rootFrame v] where
  fits p hp := by
    obtain rfl := Nat.lt_one_iff.mp hp
    refine ⟨s.rootFrame v, frameAt_cons_self, ?_, ?_, ?_, nofun⟩
    · rw [Function.update_self]
      rfl
    · show s.vertices.members[v]? = some v
      rw [s.vertices_eq]
      show (Array.range s.graph.vertexCount)[v]? = some v
      rw [Array.getElem?_range, if_pos hv]
    · intro w
      show w ∈ s.vertices ↔ _
      rw [meaning, Level.mem_meaning_zero s.plan.isValid, s.vertices_eq]
      exact HostGraph.mem_vertices
  located p hp frame _ slot c _ _ hslot := by
    -- No cache is asked for the vertex of the first level, as there is no level before it.
    obtain rfl := Nat.lt_one_iff.mp hp
    rw [s.plan.info_eq] at hslot
    have hc := s.plan.isValid.lookup (List.mem_of_getElem? hslot)
    exact (Nat.not_lt_zero c hc.1).elim

theorem Entered.push (h : s.Entered bound k frames) {frame : Frame} (hlevel : frame.level = k)
    {bound' : Nat → Nat} (hbound : ∀ i < k, bound' i = bound i) (hfits : s.Fits bound' k frame)
    (hlocated : s.Located frames k frame) : s.Entered bound' (k + 1) (frame :: frames) := by
  have hself : frameAt (frame :: frames) k = .ok frame := hlevel ▸ frameAt_cons_self
  have hold : ∀ p < k, frameAt (frame :: frames) p = frameAt frames p := fun p hp =>
    frameAt_cons_of_lt (hlevel ▸ hp)
  have hlookup : ∀ {p c slot : Nat}, (LevelInfo.lookupsAt s.plan.info p)[slot]? = some c → c < p :=
    fun hslot => by
      rw [s.plan.info_eq] at hslot
      exact (s.plan.isValid.lookup (List.mem_of_getElem? hslot)).1
  constructor
  · intro p hp
    rcases Nat.lt_succ_iff_lt_or_eq.mp hp with hp | rfl
    · obtain ⟨old, hframe, hfits⟩ := h.fits p hp
      exact ⟨old, (hold p hp).trans hframe, hfits.congr fun i hi => hbound i (Nat.lt_of_le_of_lt hi hp)⟩
    · exact ⟨frame, hself, hfits⟩
  · intro p hp found hfound slot c holder cache hslot hholder hcache
    have hc := hlookup hslot
    rcases Nat.lt_succ_iff_lt_or_eq.mp hp with hp | rfl
    · rw [hold p hp] at hfound
      rw [hold c (Nat.lt_trans hc hp)] at hholder
      exact h.located p hp found hfound slot c holder cache hslot hholder hcache
    · obtain rfl := Except.ok.inj (hself.symm.trans hfound)
      rw [hold c hc] at hholder
      exact hlocated slot c holder cache hslot hholder hcache

theorem Entered.lt_vertexCount (h : s.Entered bound k frames) (hg : s.graph.Closed) {p : Nat} (hp : p < k) :
    bound p < s.graph.vertexCount := by
  obtain ⟨frame, -, hfits⟩ := h.fits p hp
  exact Level.lt_of_mem_meaning s.plan.isValid hg hfits.mem_meaning

end Search

end PatternCount
