import PatternCount.AdjacencyCache.Basic
import PatternCount.Proofs.VertexSet.Membership

/-!
# Positions in an adjacency cache

The positions of a set of vertices in a cache are found by walking the cache once, or by a search for each vertex.
Which of the two is done depends on an estimate of reuse that no statement here looks at: both have the same outcome
(`mergePositions_eq_search`), whether or not all of the vertices are cached.

If they are, the outcome is the list of their positions, one for each and ascending as they do
(`searchPositions_eq_ok`, `ascending_of_positions`); if some are not, it is the fault of the least of them
(`searchPositions_eq_error`). `positionsInto_outcome` says both.
-/

namespace PatternCount.AdjacencyCache

variable (cache : AdjacencyCache)

/-! ## One outcome of two ways -/

/-- What is above the members before position `j` can only be a member from there on. -/
theorem mem_vertices_iff_mem_drop {v j : Nat} (hbefore : ∀ u ∈ cache.vertices.toList.take j, u < v) :
    v ∈ cache.vertices ↔ v ∈ cache.vertices.toList.drop j := by
  rw [← VertexSet.mem_toList, ← List.take_append_drop j cache.vertices.toList, List.mem_append]
  refine (or_iff_right ?_).trans (by rw [List.take_append_drop])
  intro hv
  exact Nat.lt_irrefl v (hbefore v hv)

/-- What passing over one more element of a list makes of the lists on both sides. -/
theorem drop_eq_cons {xs ws : List Nat} {j w : Nat} (h : xs.drop j = w :: ws) :
    xs[j]? = some w ∧ xs.drop (j + 1) = ws ∧ ∀ u, u ∈ xs.take (j + 1) ↔ u ∈ xs.take j ∨ u = w := by
  have hj : j < xs.length := by
    rcases Nat.lt_or_ge j xs.length with hj | hj
    · exact hj
    · rw [List.drop_eq_nil_of_le hj] at h
      cases h
  rw [List.drop_eq_getElem_cons hj] at h
  obtain ⟨hget, hdrop⟩ := List.cons.inj h
  refine ⟨List.getElem?_eq_some_iff.mpr ⟨hj, hget⟩, hdrop, ?_⟩
  intro u
  rw [List.take_succ_eq_append_getElem hj, hget, List.mem_append, List.mem_singleton]

/-- Walking the cache from position `j` on finds what a search for each vertex finds, if the vertices before
`j` are below those that are looked for. -/
theorem mergePositions_eq_search : ∀ {vs ws : List Nat} {j : Nat} (out : Array Nat), Ascending vs →
    cache.vertices.toList.drop j = ws →
    (∀ v ∈ vs, ∀ u ∈ cache.vertices.toList.take j, u < v) →
    mergePositions vs ws j out = cache.searchPositions vs out
  | [], _, _, _, _, _, _ => by rw [mergePositions, searchPositions]
  | v :: vs, [], j, out, hasc, hws, hbefore => by
      have hnone : cache.position? v = none := by
        rw [position?, VertexSet.position?_eq_none_iff, mem_vertices_iff_mem_drop cache (hbefore v List.mem_cons_self),
          hws]
        exact List.not_mem_nil
      rw [mergePositions, searchPositions, hnone]
  | v :: vs, w :: ws, j, out, hasc, hws, hbefore => by
      obtain ⟨hlt, hvs⟩ := List.pairwise_cons.mp hasc
      have hsplit : v ∈ cache.vertices ↔ v ∈ w :: ws :=
        hws ▸ mem_vertices_iff_mem_drop cache (hbefore v List.mem_cons_self)
      have hascws : Ascending (w :: ws) :=
        hws ▸ cache.vertices.ascending_toList.sublist (List.drop_sublist ..)
      obtain ⟨hget, hdrop, hnext⟩ := drop_eq_cons hws
      rw [mergePositions]
      split
      · next hwv =>
          refine mergePositions_eq_search out hasc hdrop ?_
          intro z hz u hu
          rcases (hnext u).mp hu with hu | rfl
          · exact hbefore z hz u hu
          · rcases List.mem_cons.mp hz with rfl | hz
            · exact hwv
            · exact Nat.lt_trans hwv (hlt z hz)
      · next hwv =>
          split
          · next heq =>
              subst heq
              have hpos : cache.position? w = some j := by
                rw [position?, VertexSet.position?_eq_some_iff, ← Array.getElem?_toList]
                exact hget
              rw [searchPositions, hpos]
              refine mergePositions_eq_search _ hvs hdrop ?_
              intro z hz u hu
              rcases (hnext u).mp hu with hu | rfl
              · exact hbefore z (List.mem_cons_of_mem _ hz) u hu
              · exact hlt z hz
          · next hne =>
              have hnone : cache.position? v = none := by
                rw [position?, VertexSet.position?_eq_none_iff, hsplit]
                intro hv
                rcases List.mem_cons.mp hv with rfl | hv
                · exact hne rfl
                · have := (List.pairwise_cons.mp hascws).1 v hv
                  omega
              rw [searchPositions, hnone]

theorem mergePositions_zero (subset : VertexSet) (out : Array Nat) :
    mergePositions subset.toList cache.vertices.toList 0 out = cache.searchPositions subset.toList out :=
  cache.mergePositions_eq_search out subset.ascending_toList List.drop_zero fun _ _ u hu => by
    rw [List.take_zero] at hu
    cases hu

/-- Which way positions are found makes no difference. -/
theorem positionsInto_eq (subset : VertexSet) (out : Array Nat) :
    cache.positionsInto subset out = cache.searchPositions subset.toList #[] := by
  have hempty : out.take 0 = #[] := by simp
  unfold positionsInto
  rw [hempty]
  split
  · exact cache.mergePositions_zero subset #[]
  · rfl

/-- What is found does not depend on how often the cache is expected to be read. -/
theorem searchPositions_withReuse (reuse : Binary64) : ∀ (vs : List Nat) (out : Array Nat),
    (cache.withReuse reuse).searchPositions vs out = cache.searchPositions vs out
  | [], _ => rfl
  | v :: vs, out => by
      have hsame : (cache.withReuse reuse).position? v = cache.position? v := rfl
      rw [searchPositions, searchPositions, hsame]
      cases cache.position? v with
      | none => rfl
      | some j => exact searchPositions_withReuse reuse vs (out.push j)

/-! ## What the outcome is -/

theorem searchPositions_eq_ok : ∀ (vs : List Nat) (out : Array Nat), (∀ v ∈ vs, v ∈ cache.vertices) →
    ∃ found : List Nat, cache.searchPositions vs out = .ok (out ++ found.toArray)
      ∧ found.length = vs.length
      ∧ ∀ (i v : Nat), vs[i]? = some v →
        ∃ j, found[i]? = some j ∧ cache.vertices.members[j]? = some v
  | [], out, _ => ⟨[], by rw [searchPositions]; simp, rfl, fun i v h => by cases h⟩
  | v :: vs, out, h => by
      obtain ⟨j, hj⟩ := VertexSet.mem_iff_getElem?.mp (h v List.mem_cons_self)
      obtain ⟨found, hfound, hlen, hpos⟩ := searchPositions_eq_ok vs (out.push j)
        fun w hw => h w (List.mem_cons_of_mem _ hw)
      refine ⟨j :: found, ?_, by rw [List.length_cons, hlen, List.length_cons], ?_⟩
      · have hsome : cache.position? v = some j := VertexSet.position?_eq_some_iff.mpr hj
        rw [searchPositions, hsome]
        show cache.searchPositions vs (out.push j) = _
        rw [hfound]
        simp
      · intro i w hw
        cases i with
        | zero =>
            obtain rfl := Option.some.inj hw
            exact ⟨j, rfl, hj⟩
        | succ i => exact hpos i w hw

/-- Where all members of a set are cached, their positions are found, one for each and in order. -/
theorem positionsInto_eq_ok (subset : VertexSet) (h : ∀ v ∈ subset, v ∈ cache.vertices)
    (out : Array Nat) :
    ∃ found, cache.positionsInto subset out = .ok found ∧ found.size = subset.size
      ∧ ∀ (i v : Nat), subset.members[i]? = some v →
        ∃ j, found[i]? = some j ∧ cache.vertices.members[j]? = some v := by
  obtain ⟨found, hfound, hlen, hpos⟩ := cache.searchPositions_eq_ok subset.toList #[] h
  refine ⟨found.toArray, ?_, ?_, ?_⟩
  · rw [positionsInto_eq, hfound]
    simp
  · rw [List.size_toArray, hlen, VertexSet.length_toList]
  · intro i v hv
    rw [List.getElem?_toArray]
    exact hpos i v (by rw [VertexSet.toList, Array.getElem?_toList]; exact hv)

/-- The first vertex that is not cached ends the search, so in an ascending list it is the least of them. -/
theorem searchPositions_eq_error : ∀ {vs : List Nat} (out : Array Nat), Ascending vs →
    (¬∀ v ∈ vs, v ∈ cache.vertices) →
    ∃ v ∈ vs, v ∉ cache.vertices ∧ cache.searchPositions vs out = .error (.vertexNotCached v) ∧
      ∀ w ∈ vs, w ∉ cache.vertices → v ≤ w
  | [], _, _, h => (h (List.forall_mem_nil _)).elim
  | v :: vs, out, hasc, h => by
      obtain ⟨hlt, hvs⟩ := List.pairwise_cons.mp hasc
      cases hv : cache.position? v with
      | none =>
          have hnot : v ∉ cache.vertices := VertexSet.position?_eq_none_iff.mp hv
          refine ⟨v, List.mem_cons_self, hnot, by rw [searchPositions, hv], ?_⟩
          intro w hw _
          rcases List.mem_cons.mp hw with rfl | hw
          · exact Nat.le_refl _
          · exact Nat.le_of_lt (hlt w hw)
      | some j =>
          have hmem : v ∈ cache.vertices :=
            VertexSet.mem_iff_getElem?.mpr ⟨j, VertexSet.position?_eq_some_iff.mp hv⟩
          obtain ⟨u, hu, hnot, herror, hleast⟩ := searchPositions_eq_error (out.push j) hvs
            fun hall => h (List.forall_mem_cons.mpr ⟨hmem, hall⟩)
          refine ⟨u, List.mem_cons_of_mem _ hu, hnot, by rw [searchPositions, hv]; exact herror, ?_⟩
          intro w hw hwnot
          rcases List.mem_cons.mp hw with rfl | hw
          · exact (hwnot hmem).elim
          · exact hleast w hw hwnot

/-- Positions ascend as their vertices do. -/
theorem ascending_of_positions {subset : VertexSet} {found : Array Nat} (hsize : found.size = subset.size)
    (hpos : ∀ i v : Nat, subset.members[i]? = some v →
      ∃ j, found[i]? = some j ∧ cache.vertices.members[j]? = some v) : Ascending found.toList := by
  have hat : ∀ (i : Nat) (hi : i < found.size), ∃ (hs : i < subset.members.size)
      (hc : found[i] < cache.vertices.members.size), cache.vertices.members[found[i]] = subset.members[i] := by
    intro i hi
    have hs : i < subset.members.size := Nat.lt_of_lt_of_eq hi hsize
    obtain ⟨j, hj, hv⟩ := hpos i _ (Array.getElem?_eq_getElem hs)
    obtain ⟨_, rfl⟩ := Array.getElem?_eq_some_iff.mp hj
    obtain ⟨hc, hv⟩ := Array.getElem?_eq_some_iff.mp hv
    exact ⟨hs, hc, hv⟩
  refine List.pairwise_iff_getElem.mpr ?_
  intro i j hi hj hij
  rw [Array.getElem_toList, Array.getElem_toList]
  obtain ⟨hsi, hci, hvi⟩ := hat i (by simpa using hi)
  obtain ⟨hsj, hcj, hvj⟩ := hat j (by simpa using hj)
  have hlt := subset.ascending.getElem_lt hij hsj
  rw [← hvi, ← hvj] at hlt
  by_contra hge
  exact Nat.not_le_of_lt hlt (cache.vertices.ascending.getElem_le (Nat.le_of_not_lt hge) hci)

/-- Walking the cache and searching it for each vertex have the same outcome, whichever of them the reuse decides for
and whatever the buffer held before: if all the vertices are cached, their positions, which ascend as they do;
otherwise the fault of the least of those that are not. -/
theorem positionsInto_outcome (subset : VertexSet) (reuse : Binary64) (out : Array Nat) :
    ∃ outcome : Except Fault (Array Nat),
      mergePositions subset.toList cache.vertices.toList 0 (out.take 0) = outcome ∧
      cache.searchPositions subset.toList (out.take 0) = outcome ∧
      (cache.withReuse reuse).positionsInto subset out = outcome ∧
      ((∀ v ∈ subset, v ∈ cache.vertices) →
        ∃ found, outcome = .ok found ∧ found.size = subset.size ∧ Ascending found.toList ∧
          ∀ i v : Nat, subset.members[i]? = some v →
            ∃ j, found[i]? = some j ∧ cache.vertices.members[j]? = some v) ∧
      ((¬∀ v ∈ subset, v ∈ cache.vertices) →
        ∃ v fault, outcome = .error fault ∧ fault.message = s!"vertex {v} is not cached" ∧
          v ∈ subset ∧ v ∉ cache.vertices ∧ ∀ w ∈ subset, w ∉ cache.vertices → v ≤ w) := by
  have hempty : out.take 0 = #[] := by simp
  refine ⟨cache.searchPositions subset.toList #[], ?_, by rw [hempty], ?_, ?_, ?_⟩
  · rw [hempty, mergePositions_zero]
  · rw [positionsInto_eq, searchPositions_withReuse]
  · intro hall
    obtain ⟨found, hfound, hsize, hpos⟩ := cache.positionsInto_eq_ok subset hall #[]
    rw [positionsInto_eq] at hfound
    exact ⟨found, hfound, hsize, cache.ascending_of_positions hsize hpos, hpos⟩
  · intro hmissing
    obtain ⟨v, hv, hnot, herror, hleast⟩ :=
      cache.searchPositions_eq_error #[] subset.ascending_toList hmissing
    exact ⟨v, .vertexNotCached v, herror, rfl, hv, hnot, hleast⟩

end PatternCount.AdjacencyCache
