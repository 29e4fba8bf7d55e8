import Polyhedra.Construction.Operator
import Polyhedra.Mesh.Dual
import Polyhedra.Mesh.Surface
import Polyhedra.Proofs.Surface.Net
import Mathlib.Algebra.GroupWithZero.Nat
import Mathlib.Data.List.Perm.Subperm
import Mathlib.Data.Prod.Basic

/-!
# The net of a mesh

A mesh is a closed surface if its faces are simple and its net is a closed
surface (`Mesh.surface_iff`), and likewise for polyhedra
(`Mesh.polyhedral_iff`).  What the code of the mesh runs through, its directed
edges and its corners, are those of the net.

On a closed surface `Mesh.edges` has one entry for each pair of directed edges
(`Mesh.Surface.two_mul_length_edges`).  `Mesh.validate` accepts closed surfaces, and
more: whatever has proper faces and no open edge (`Mesh.validate_eq_ok_iff`).

## Main results

* `Mesh.surface_iff`, `Mesh.polyhedral_iff` — closed surfaces and polyhedra by
  their nets.
* `Mesh.mem_cornersWithFace` — the corners of all faces are those of the net.
* `Mesh.validate_eq_ok_iff` — which meshes are valid.
* `Mesh.Spherical.length_edges` — the edges of a mesh of Euler characteristic two
  are as many as Euler's formula says.
-/

namespace Polyhedra

/-! ## Faces without fault -/

namespace Face

/-- A face has as many different vertices as vertices if none of them comes twice. -/
theorem distinctCount_eq_length_iff {f : Face} : f.distinctCount = f.length ↔ f.Nodup := by
  constructor
  · intro hcount
    have hnodup : (Std.TreeSet.ofList f).toList.Nodup :=
      List.nodup_iff_pairwise_ne.2 (Std.TreeSet.distinct_toList.imp fun hne heq =>
        hne (by rw [heq]; exact Std.ReflCmp.compare_self))
    have hsubset : (Std.TreeSet.ofList f).toList ⊆ f := fun v hv => by simpa using hv
    have hlength : f.length ≤ (Std.TreeSet.ofList f).toList.length := by
      rw [Std.TreeSet.length_toList]
      exact hcount.ge
    have hperm := (hnodup.subperm hsubset).perm_of_length_le hlength
    exact hperm.nodup_iff.1 hnodup
  · intro hnodup
    refine Std.TreeSet.size_ofList (hnodup.imp fun hne heq => hne ?_)
    exact Std.LawfulEqCmp.eq_of_compare heq

/-- A face has no fault if it is simple and all its vertices have a position. -/
theorem fault?_eq_none_iff {f : Face} {vertexCount position : Nat} :
    f.fault? vertexCount position = none ↔ f.Simple ∧ ∀ v ∈ f, v < vertexCount := by
  unfold fault?
  constructor
  · intro hnone
    split at hnone
    · simp at hnone
    · next hshape =>
      split at hnone
      · simp at hnone
      · next hrange =>
        obtain ⟨hthree, hlength⟩ := not_or.1 hshape
        have hcount : f.distinctCount = f.length := not_not.1 hlength
        refine ⟨⟨distinctCount_eq_length_iff.1 hcount, by omega⟩, ?_⟩
        simpa using hrange
  · rintro ⟨hf, hrange⟩
    have hthree := hf.three_le
    rw [distinctCount_eq_length_iff.2 hf.nodup, if_neg (by omega), if_neg]
    simpa using hrange

end Face

namespace Mesh

/-- The net of a mesh: vertices and faces are their numbers. -/
def net (m : Mesh) : Net Nat Nat where
  IsVertex v := v < m.vertexCount
  Runs := m.RunsAlong

variable {m : Mesh} {i j u v w : Nat}

theorem touches_net_iff : m.net.Touches i v ↔ m.Touches i v := by
  constructor
  · rintro ⟨w, f, hf, hvw⟩
    exact ⟨f, hf, mem_left_of_mem_cycleEdges hvw⟩
  · rintro ⟨f, hf, hv⟩
    obtain ⟨w, hw⟩ := exists_mem_cycleEdges_left hv
    exact ⟨w, f, hf, hw⟩

theorem mem_directedEdges : (v, w) ∈ m.directedEdges ↔ ∃ i, m.RunsAlong i v w := by
  rw [directedEdges, List.mem_flatMap]
  constructor
  · rintro ⟨f, hf, hvw⟩
    obtain ⟨i, hi⟩ := List.mem_iff_getElem?.1 hf
    exact ⟨i, f, hi, hvw⟩
  · rintro ⟨i, f, hi, hvw⟩
    exact ⟨f, List.mem_of_getElem? hi, hvw⟩

/-- Across an edge some face runs the other way. -/
theorem EdgesPaired.exists_runs (h : m.EdgesPaired) (hr : m.net.Runs i v w) :
    ∃ j, m.net.Runs j w v :=
  mem_directedEdges.1 (h _ (mem_directedEdges.2 ⟨i, hr⟩))

/-- A simple face is the ring along which the face runs. -/
theorem ring_net {f : Face} (hi : m.faces[i]? = some f) (hf : f.Simple) : m.net.Ring i f where
  nodup := hf.nodup
  three_le := hf.three_le
  runs_iff v w := by
    constructor
    · rintro ⟨g, hg, hvw⟩
      rw [Option.some.inj (hi.symm.trans hg)]
      exact hvw
    · exact fun hvw => ⟨f, hi, hvw⟩

/-- Every face of a proper mesh is run along as a ring. -/
theorem Proper.ringed (h : m.Proper) : m.net.Ringed := by
  rintro i v w ⟨f, hf, -⟩
  exact ⟨f, ring_net hf (h.simple f (List.mem_of_getElem? hf))⟩

theorem Proper.isVertex (h : m.Proper) (hr : m.net.Runs i v w) : v < m.vertexCount := by
  obtain ⟨f, hf, hvw⟩ := hr
  exact h.inRange f (List.mem_of_getElem? hf) v (mem_left_of_mem_cycleEdges hvw)

theorem edgesOnce_iff (hsimple : ∀ f ∈ m.faces, f.Simple) :
    m.EdgesOnce ↔ ∀ i j v w, m.RunsAlong i v w → m.RunsAlong j v w → i = j := by
  rw [EdgesOnce, directedEdges, List.nodup_flatMap]
  constructor
  · rintro ⟨-, hdisjoint⟩ i j v w ⟨f, hf, hvw⟩ ⟨g, hg, hvw'⟩
    obtain ⟨hi, rfl⟩ := List.getElem?_eq_some_iff.1 hf
    obtain ⟨hj, rfl⟩ := List.getElem?_eq_some_iff.1 hg
    rcases Nat.lt_trichotomy i j with hlt | heq | hlt
    · exact absurd hvw' (List.pairwise_iff_getElem.1 hdisjoint i j hi hj hlt hvw)
    · exact heq
    · exact absurd hvw (List.pairwise_iff_getElem.1 hdisjoint j i hj hi hlt hvw')
  · refine fun honce => ⟨fun f hf => nodup_cycleEdges (hsimple f hf).nodup, ?_⟩
    refine List.pairwise_iff_getElem.2 fun i j hi hj hlt e he he' => ?_
    have := honce i j e.1 e.2 ⟨_, List.getElem?_eq_getElem hi, he⟩
      ⟨_, List.getElem?_eq_getElem hj, he'⟩
    omega

theorem encircles_iff {around : List Nat} : m.Encircles v around ↔ m.net.Star v around := by
  constructor
  · rintro ⟨⟨hnodup, hthree⟩, hmem, hacross⟩
    exact ⟨hnodup, hthree, fun i => (hmem i).trans touches_net_iff.symm, hacross⟩
  · rintro ⟨hnodup, hthree, hmem, hacross⟩
    exact ⟨⟨hnodup, hthree⟩, fun i => (hmem i).trans touches_net_iff, hacross⟩

/-- A mesh is a closed surface if its faces are simple and its net is one. -/
theorem surface_iff : m.Surface ↔ (∀ f ∈ m.faces, f.Simple) ∧ m.net.Surface := by
  constructor
  · intro h
    refine ⟨h.simple, fun i v w hr => h.toProper.isVertex hr, h.toProper.ringed,
      (edgesOnce_iff h.simple).1 h.edgesOnce, ?_, ?_⟩
    · exact fun i v w hr => h.edgesPaired.exists_runs hr
    · intro v hv
      obtain ⟨around, haround⟩ := h.encircled v hv
      exact ⟨around, encircles_iff.1 haround⟩
  · rintro ⟨hsimple, h⟩
    refine ⟨⟨hsimple, fun f hf v hv => ?_⟩, (edgesOnce_iff hsimple).2 h.once, ?_, fun v hv => ?_⟩
    · obtain ⟨i, hi⟩ := List.mem_iff_getElem?.1 hf
      obtain ⟨w, hw⟩ := touches_net_iff.2 ⟨f, hi, hv⟩
      exact h.isVertex i v w hw
    · rintro ⟨v, w⟩ he
      obtain ⟨i, hr⟩ := mem_directedEdges.1 he
      exact mem_directedEdges.2 (h.paired i v w hr)
    · obtain ⟨around, hstar⟩ := h.exists_star v hv
      exact ⟨around, encircles_iff.2 hstar⟩

/-- A mesh is that of a polyhedron if its faces are simple and its net is that of one. -/
theorem polyhedral_iff : m.Polyhedral ↔ (∀ f ∈ m.faces, f.Simple) ∧ m.net.Polyhedral := by
  constructor
  · intro h
    obtain ⟨hsimple, hsurface⟩ := surface_iff.1 h.toSurface
    refine ⟨hsimple, hsurface, fun i j u v hij huv hiu hju hiv hjv => ?_⟩
    rw [touches_net_iff] at hiu hju hiv hjv
    exact (h.facesMeetInEdges i j u v hij huv hiu hju hiv hjv).1
  · rintro ⟨hsimple, h⟩
    refine ⟨surface_iff.2 ⟨hsimple, h.toSurface⟩, fun i j u v hij huv hiu hju hiv hjv => ?_⟩
    rw [← touches_net_iff] at hiu hju hiv hjv
    refine ⟨h.meet i j u v hij huv hiu hju hiv hjv, fun w hiw hjw => ?_⟩
    rw [← touches_net_iff] at hiw hjw
    exact h.shared hij huv hiu hju hiv hjv hiw hjw

/-! ## Corners -/

section Corners

variable (hsimple : ∀ f ∈ m.faces, f.Simple)
include hsimple

theorem mem_cornersWithFace : (i, u, v, w) ∈ m.cornersWithFace ↔ m.net.Corner i u v w := by
  simp only [cornersWithFace, List.mem_flatMap, List.mem_map, Prod.exists, Prod.mk.injEq,
    List.mem_zipIdx_iff_getElem?]
  constructor
  · rintro ⟨f, _, hf, _, _, _, hcorner, rfl, rfl, rfl, rfl⟩
    have hnodup := (hsimple f (List.mem_of_getElem? hf)).nodup
    obtain ⟨huv, hvw⟩ := (mem_cycleCorners_iff hnodup).1 hcorner
    exact ⟨⟨f, hf, huv⟩, ⟨f, hf, hvw⟩⟩
  · rintro ⟨⟨f, hf, huv⟩, ⟨g, hg, hvw⟩⟩
    obtain rfl := Option.some.inj (hf.symm.trans hg)
    exact ⟨f, i, hf, u, v, w,
      (mem_cycleCorners_iff (hsimple f (List.mem_of_getElem? hf)).nodup).2 ⟨huv, hvw⟩,
      rfl, rfl, rfl, rfl⟩

theorem nodup_cornersWithFace : m.cornersWithFace.Nodup := by
  rw [cornersWithFace, List.nodup_flatMap]
  constructor
  · rintro ⟨f, i⟩ hf
    have hmem := List.mem_of_getElem? (List.mem_zipIdx_iff_getElem?.1 hf)
    exact (nodup_cycleCorners (hsimple f hmem).nodup).map fun _ _ h => (Prod.mk.inj h).2
  · have hplaces : (m.faces.zipIdx.map Prod.snd).Nodup := by
      rw [List.zipIdx_map_snd]
      exact List.nodup_range'
    rw [List.nodup_iff_pairwise_ne, List.pairwise_map] at hplaces
    refine hplaces.imp fun hne => ?_
    rintro ⟨i, corner⟩ h h'
    obtain ⟨_, _, heq⟩ := List.mem_map.1 h
    obtain ⟨_, _, heq'⟩ := List.mem_map.1 h'
    exact hne ((Prod.mk.inj heq).1.trans (Prod.mk.inj heq').1.symm)

end Corners

/-- Lists laid out face by face are counted face by face. -/
theorem length_flatMap_zipIdx {α β : Type} {f : α × Nat → List β} {n : α → Nat}
    (h : ∀ a i, (f (a, i)).length = n a) (l : List α) :
    (l.zipIdx.flatMap f).length = (l.map n).sum := by
  rw [List.length_flatMap]
  conv_rhs => rw [← List.zipIdx_map_fst 0 l, List.map_map]
  congr 1
  exact List.map_congr_left fun x _ => h x.1 x.2

theorem length_directedEdges (m : Mesh) :
    m.directedEdges.length = (m.faces.map List.length).sum := by
  rw [directedEdges, List.length_flatMap]
  simp [Face.edges, length_cycleEdges]

/-- There are as many corners as directed edges. -/
theorem length_cornersWithFace (m : Mesh) :
    m.cornersWithFace.length = m.directedEdges.length := by
  rw [length_directedEdges]
  exact length_flatMap_zipIdx (fun f i => by simp [Face.corners, length_cycleCorners]) m.faces

/-! ## Edges with their faces -/

theorem mem_edgesWithFace : ((u, v), i) ∈ edgesWithFace m.faces ↔ m.net.Runs i u v := by
  simp only [edgesWithFace, List.mem_flatMap, List.mem_map, Prod.exists, Prod.mk.injEq,
    List.mem_zipIdx_iff_getElem?]
  constructor
  · rintro ⟨f, _, hf, _, _, huv, ⟨rfl, rfl⟩, rfl⟩
    exact ⟨f, hf, huv⟩
  · rintro ⟨f, hf, huv⟩
    exact ⟨f, i, hf, u, v, huv, ⟨rfl, rfl⟩, rfl⟩

theorem map_fst_edgesWithFace (m : Mesh) :
    (edgesWithFace m.faces).map Prod.fst = m.directedEdges := by
  rw [edgesWithFace, List.map_flatMap, directedEdges]
  conv_rhs => rw [← List.zipIdx_map_fst 0 m.faces, List.flatMap_map]
  exact List.flatMap_congr fun x _ => by simp [Function.comp_def]

/-! ## Validity -/

section Sorted

attribute [local instance] lexOrd

theorem mem_sortedPairs {pairs : List (Nat × Nat)} {e : Nat × Nat} :
    e ∈ (sortedPairs pairs).toList ↔ e ∈ pairs := by
  simp [sortedPairs]

theorem contains_sortedPairs {pairs : List (Nat × Nat)} {e : Nat × Nat} :
    (sortedPairs pairs).contains e = true ↔ e ∈ pairs := by
  simp [sortedPairs]

theorem nodup_sortedPairs (pairs : List (Nat × Nat)) : (sortedPairs pairs).toList.Nodup := by
  refine List.nodup_iff_pairwise_ne.2 (Std.TreeSet.distinct_toList.imp fun hne heq => hne ?_)
  rw [heq]
  exact Std.ReflCmp.compare_self

end Sorted

/-- No edge is unmatched if every edge is paired. -/
theorem unmatchedEdge?_eq_none_iff : m.unmatchedEdge? = none ↔ m.EdgesPaired := by
  refine List.find?_eq_none.trans (forall_congr' fun e => ?_)
  rw [mem_sortedPairs, Bool.not_eq_true, Bool.not_eq_false', contains_sortedPairs]

/-- Validation accepts the meshes with proper faces and no open edge. -/
theorem validate_eq_ok_iff : m.validate = .ok () ↔ m.Proper ∧ m.EdgesPaired := by
  have hfaces : (m.faces.zipIdx.findSome? fun x => x.1.fault? m.vertexCount x.2) = none ↔
      m.Proper := by
    rw [List.findSome?_eq_none_iff]
    constructor
    · intro h
      have hface : ∀ f ∈ m.faces, f.Simple ∧ ∀ v ∈ f, v < m.vertexCount := by
        intro f hf
        obtain ⟨k, hk⟩ := List.mem_iff_getElem?.1 hf
        exact Face.fault?_eq_none_iff.1 (h (f, k) (List.mem_zipIdx_iff_getElem?.2 hk))
      exact ⟨fun f hf => (hface f hf).1, fun f hf => (hface f hf).2⟩
    · rintro h ⟨f, k⟩ hmem
      have hf := List.mem_of_getElem? (List.mem_zipIdx_iff_getElem?.1 hmem)
      exact Face.fault?_eq_none_iff.2 ⟨h.simple f hf, h.inRange f hf⟩
  rw [← hfaces, ← unmatchedEdge?_eq_none_iff]
  unfold validate
  split
  · next e he => simp [he]
  · next hnone =>
    split
    · next x y hedge => simp [hedge]
    · next hedge => simp [hnone, hedge]

namespace Surface

variable (h : m.Surface)
include h

/-- A closed surface is valid. -/
theorem validate_eq_ok : m.validate = .ok () :=
  validate_eq_ok_iff.2 ⟨h.toProper, h.edgesPaired⟩

theorem mem_edges {v w : Nat} : (v, w) ∈ m.edges ↔ v < w ∧ (v, w) ∈ m.directedEdges := by
  obtain ⟨-, hnet⟩ := surface_iff.1 h
  rw [edges, mem_sortedPairs, List.mem_map]
  constructor
  · rintro ⟨⟨x, y⟩, hxy, heq⟩
    obtain ⟨i, hr⟩ := mem_directedEdges.1 hxy
    have hne := hnet.ne hr
    have hyx := h.edgesPaired _ hxy
    obtain ⟨rfl, rfl⟩ : min x y = v ∧ max x y = w := Prod.mk.inj heq
    rcases Nat.lt_or_gt_of_ne hne with hlt | hlt
    · rw [Nat.min_eq_left hlt.le, Nat.max_eq_right hlt.le]
      exact ⟨hlt, hxy⟩
    · rw [Nat.min_eq_right hlt.le, Nat.max_eq_left hlt.le]
      exact ⟨hlt, hyx⟩
  · rintro ⟨hlt, hvw⟩
    exact ⟨(v, w), hvw, by simp [undirected, hlt.le]⟩

/-- Each edge is run along in both directions. -/
theorem two_mul_length_edges : 2 * m.edges.length = m.directedEdges.length := by
  have hnodup : m.edges.Nodup := nodup_sortedPairs _
  have hswap : (m.edges.map Prod.swap).Nodup := hnodup.map Prod.swap_injective
  have hdisjoint : m.edges.Disjoint (m.edges.map Prod.swap) := by
    rintro ⟨v, w⟩ hvw hwv
    obtain ⟨⟨x, y⟩, hxy, heq⟩ := List.mem_map.1 hwv
    obtain ⟨rfl, rfl⟩ : y = v ∧ x = w := Prod.mk.inj heq
    have := (h.mem_edges.1 hvw).1
    have := (h.mem_edges.1 hxy).1
    omega
  have hperm : m.directedEdges.Perm (m.edges ++ m.edges.map Prod.swap) := by
    refine (List.perm_ext_iff_of_nodup h.edgesOnce (hnodup.append hswap hdisjoint)).2 ?_
    rintro ⟨v, w⟩
    rw [List.mem_append, List.mem_map]
    constructor
    · intro hvw
      obtain ⟨i, hr⟩ := mem_directedEdges.1 hvw
      rcases Nat.lt_or_gt_of_ne ((surface_iff.1 h).2.ne hr) with hlt | hlt
      · exact .inl (h.mem_edges.2 ⟨hlt, hvw⟩)
      · exact .inr ⟨(w, v), h.mem_edges.2 ⟨hlt, h.edgesPaired _ hvw⟩, rfl⟩
    · rintro (hvw | ⟨⟨x, y⟩, hxy, heq⟩)
      · exact (h.mem_edges.1 hvw).2
      · obtain ⟨rfl, rfl⟩ : y = v ∧ x = w := Prod.mk.inj heq
        exact h.edgesPaired _ (h.mem_edges.1 hxy).2
  have hlength := hperm.length_eq
  rw [List.length_append, List.length_map] at hlength
  omega

end Surface

/-- Vertices less edges plus faces: the Euler characteristic. -/
def eulerNumber (m : Mesh) : Int := m.vertexCount - m.edges.length + m.faceCount

/-- The surface of a polyhedron with the Euler characteristic of a sphere. -/
structure Spherical (m : Mesh) : Prop extends Polyhedral m where
  euler : 2 * (m.vertexCount + m.faceCount) = m.directedEdges.length + 4

/-- A mesh is told to be one by the wheels of its vertices. -/
theorem Spherical.of_wheels (hsimple : ∀ f ∈ m.faces, f.Simple)
    (hvertex : ∀ i v w, m.net.Runs i v w → v < m.vertexCount)
    (hwheel : ∀ v < m.vertexCount, ∃ wheel, m.net.Wheel v wheel)
    (hmeet : ∀ (i j : Nat) (f g : Face), m.faces[i]? = some f → m.faces[j]? = some g → i ≠ j →
      ∀ u v, u ≠ v → u ∈ f → u ∈ g → v ∈ f → v ∈ g → (u, v) ∈ f.edges ∨ (v, u) ∈ f.edges)
    (heuler : 2 * (m.vertexCount + m.faceCount) = m.directedEdges.length + 4) :
    m.Spherical where
  toPolyhedral := by
    have hring : ∀ i v w, m.net.Runs i v w → ∃ ring, m.net.Ring i ring := by
      rintro i v w ⟨f, hf, -⟩
      exact ⟨f, ring_net hf (hsimple f (List.mem_of_getElem? hf))⟩
    refine polyhedral_iff.2 ⟨hsimple, .of_wheels hvertex hring hwheel, ?_⟩
    intro i j u v hij huv hiu hju hiv hjv
    rw [touches_net_iff] at hiu hju hiv hjv
    obtain ⟨f, hf, hu⟩ := hiu
    obtain ⟨g, hg, hu'⟩ := hju
    obtain ⟨_, hf', hv⟩ := hiv
    obtain ⟨_, hg', hv'⟩ := hjv
    obtain rfl := Option.some.inj (hf.symm.trans hf')
    obtain rfl := Option.some.inj (hg.symm.trans hg')
    exact (hmeet i j f g hf hg hij u v huv hu hu' hv hv').imp (fun he => ⟨f, hf, he⟩)
      fun he => ⟨f, hf, he⟩
  euler := heuler

/-- Euler's formula: vertices and faces are two more than edges. -/
theorem Spherical.euler_formula (h : m.Spherical) :
    m.vertexCount + m.faceCount = m.edges.length + 2 := by
  have hedges := h.two_mul_length_edges
  have heuler := h.euler
  omega

theorem Spherical.length_edges (h : m.Spherical) : m.edges.length = m.edgeCount := by
  have heuler := h.euler_formula
  unfold edgeCount
  omega

end Mesh

end Polyhedra
