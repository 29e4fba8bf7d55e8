import Polyhedra.Proofs.Surface.Designs
import Polyhedra.Proofs.Surface.Outlines

/-!
# The dual of a surface

The dual of a net has the faces for vertices and the vertices for faces
(`Net.dual`): the star of a vertex becomes a ring and the ring of a face becomes
a star.  On the surface of a polyhedron no edge of the dual lies in two of its
faces, since two faces share two vertices at most, and so the dual is the surface
of a polyhedron too.

`Mesh.dual` finds the vertex of each dual face by what its first three faces have
in common.  On a polyhedron three faces never have two vertices in common, and
the net of the dual mesh is the dual of the net (`Mesh.net_dual`).

## Main results

* `Net.Polyhedral.dual` — the dual of a polyhedron is one.
* `Mesh.Polyhedral.exists_dualFaces` — the dual has a ring for each vertex.
* `Mesh.Polyhedral.exists_dual` — a polyhedron that is not too large has a dual.
* `Mesh.Polyhedral.of_dual`, `Mesh.Spherical.of_dual` — the dual is a polyhedron too.
-/

namespace Polyhedra

/-! ## Duals of nets -/

namespace Net

variable {V F : Type}

/-- Where a face runs from `v` and another one runs back, the dual face of `v` passes between. -/
def dual (N : Net V F) : Net F V where
  IsVertex f := ∃ v, N.Touches f v
  Runs v g f := ∃ w, N.Runs f v w ∧ N.Runs g w v

variable {N : Net V F} {f g : F} {v w : V}

namespace Surface

variable (h : N.Surface)
include h

theorem touches_dual_iff : N.dual.Touches v f ↔ N.Touches f v := by
  constructor
  · rintro ⟨g, w, -, hr⟩
    exact h.touches_right hr
  · rintro ⟨w, hr⟩
    obtain ⟨u, hc⟩ := h.exists_enters hr
    obtain ⟨g, hg⟩ := h.paired f u v hc.enters
    exact ⟨g, u, hg, hc.enters⟩

/-- The dual face of a vertex goes round its star. -/
theorem ring_dual {around : List F} (hstar : N.Star v around) : N.dual.Ring v around where
  nodup := hstar.nodup
  three_le := hstar.three_le
  runs_iff g f := by
    constructor
    · rintro ⟨w, hf, hg⟩
      exact h.mem_star_of_runs hstar hg hf
    · intro hgf
      obtain ⟨w, hg, hf⟩ := hstar.across g f hgf
      exact ⟨w, hf, hg⟩

/-- Around a face the dual faces of its vertices follow one another as the vertices do. -/
theorem star_dual {ring : List V} (hring : N.Ring f ring) : N.dual.Star f ring where
  nodup := hring.nodup
  three_le := hring.three_le
  mem_iff v := by rw [h.touches_dual_iff, hring.touches_iff]
  across v w hvw := by
    have hr := (hring.runs_iff v w).2 hvw
    obtain ⟨g, hg⟩ := h.paired f v w hr
    exact ⟨g, ⟨w, hr, hg⟩, v, hg, hr⟩

end Surface

namespace Polyhedral

/-- The dual of a polyhedron is one. -/
theorem dual (h : N.Polyhedral) : N.dual.Polyhedral where
  isVertex v g f := by
    rintro ⟨w, -, hg⟩
    exact ⟨w, v, hg⟩
  exists_ring v g f := by
    rintro ⟨w, hf, -⟩
    obtain ⟨around, hstar⟩ := h.exists_star v (h.isVertex f v w hf)
    exact ⟨around, h.ring_dual hstar⟩
  once v v' g f := by
    rintro ⟨w, hf, hg⟩ ⟨w', hf', hg'⟩
    exact (h.edge_unique hf hg hf' hg').1
  paired v g f := by
    rintro ⟨w, hf, hg⟩
    exact ⟨w, v, hg, hf⟩
  exists_star f := by
    rintro ⟨v, w, hr⟩
    obtain ⟨ring, hring⟩ := h.exists_ring f v w hr
    exact ⟨ring, h.star_dual hring⟩
  meet v w f g hvw hfg hvf hwf hvg hwg := by
    rw [h.touches_dual_iff] at hvf hwf hvg hwg
    rcases h.meet_opposite hfg hvw hvf hvg hwf hwg with ⟨hf, hg⟩ | ⟨hf, hg⟩
    · exact .inr ⟨w, hf, hg⟩
    · exact .inl ⟨w, hg, hf⟩

end Polyhedral

end Net

/-! ## The flags of the dual -/

namespace Mesh

variable {m : Mesh} {f i k u v w : Nat}

section Flags

variable (h : m.Surface)
include h

theorem faceAlong_eq_some_iff :
    (faceAlong (edgesWithFace m.faces))[(u, v)]? = some i ↔ m.net.Runs i u v := by
  rw [faceAlong, getElem?_lastByLabel_eq_some_iff (map_fst_edgesWithFace m ▸ h.edgesOnce),
    mem_edgesWithFace]

/-- The flag of the dual at a directed edge. -/
def dualFlag (m : Mesh) (e : (Nat × Nat) × Nat) : Flag Nat Nat :=
  ⟨e.1.1, ((faceAlong (edgesWithFace m.faces))[e.1.swap]?).getD 0, e.2⟩

theorem dualFlag_eq (i : Nat) (hback : m.net.Runs k v u) :
    m.dualFlag ((u, v), i) = ⟨u, k, i⟩ := by
  rw [dualFlag, Prod.swap_prod_mk, (faceAlong_eq_some_iff h).2 hback, Option.getD_some]

theorem dualFlags_eq_ok :
    dualFlags m.faces = .ok ((edgesWithFace m.faces).map m.dualFlag) := by
  obtain ⟨-, hnet⟩ := surface_iff.1 h
  refine mapM_eq_ok_map ?_
  rintro ⟨⟨u, v⟩, i⟩ he
  have hr := mem_edgesWithFace.1 he
  obtain ⟨k, hback⟩ := hnet.paired i u v hr
  rw [dualFlag_eq h i hback]
  simp only [(faceAlong_eq_some_iff h).2 hback]

end Flags

/-- The blueprint of the dual. -/
def dualDesign (m : Mesh) : Blueprint Nat Nat where
  vertices := (List.range m.faceCount).map fun i => (i, Point.zero)
  flags := (edgesWithFace m.faces).map m.dualFlag

theorem dualBlueprint_eq_ok (h : m.Surface) : dualBlueprint m.faces = .ok m.dualDesign := by
  rw [dualBlueprint, dualFlags_eq_ok h]
  rfl

/-- The vertices of the dual have the numbers of the faces. -/
theorem labels_dualDesign (m : Mesh) : m.dualDesign.labels = List.range m.faceCount := by
  have hkeys : m.dualDesign.vertices.map Prod.fst = List.range m.faceCount := by
    simp [dualDesign, Function.comp_def]
  rw [Blueprint.labels_eq (hkeys ▸ List.nodup_range), hkeys]

theorem indexOf_dualDesign (hi : i < m.faceCount) : m.dualDesign.indexOf i = i :=
  Blueprint.indexOf_eq (by rw [labels_dualDesign, List.getElem?_range hi])

/-- The limits of vertices and faces are the same, so that a dual is too large when a mesh is. -/
theorem oversize?_dual_eq_none :
    oversize? m.faceCount m.vertexCount = none ↔ m.WithinLimits :=
  oversize?_eq_none.trans and_comm

theorem WithinLimits.dual {d : Mesh} (h : m.WithinLimits) (hd : m.dual = .ok d) :
    d.WithinLimits := by
  obtain ⟨-, hfaces, hvertices⟩ := dual_eq_ok hd
  exact ⟨hvertices.le.trans h.2, hfaces.le.trans h.1⟩

section Design

variable (h : m.Surface)
include h

theorem isVertex_dual_iff : m.net.dual.IsVertex i ↔ i < m.faceCount := by
  constructor
  · rintro ⟨v, w, hr⟩
    exact lt_faceCount_of_runs hr
  · intro hi
    obtain ⟨v, w, hr⟩ := exists_runs h hi
    exact ⟨v, w, hr⟩

theorem touches_of_isVertex (hv : v < m.vertexCount) : ∃ g i, m.net.dual.Runs v g i := by
  obtain ⟨-, hnet⟩ := surface_iff.1 h
  obtain ⟨around, hstar⟩ := hnet.exists_star v hv
  exact (hnet.ring_dual hstar).exists_touches

theorem net_dualDesign : m.dualDesign.net = m.net.dual := by
  obtain ⟨-, hnet⟩ := surface_iff.1 h
  ext
  · rw [isVertex_dual_iff h]
    show _ ∈ m.dualDesign.labels ↔ _
    rw [labels_dualDesign, List.mem_range]
  · show _ ∈ (edgesWithFace m.faces).map m.dualFlag ↔ _
    rw [List.mem_map]
    constructor
    · rintro ⟨⟨⟨u, v⟩, i⟩, he, heq⟩
      have hr := mem_edgesWithFace.1 he
      obtain ⟨k, hback⟩ := hnet.paired i u v hr
      rw [dualFlag_eq h i hback] at heq
      obtain ⟨rfl, rfl, rfl⟩ := Flag.mk.inj heq
      exact ⟨v, hr, hback⟩
    · rintro ⟨v, hr, hback⟩
      exact ⟨_, mem_edgesWithFace.2 hr, dualFlag_eq h _ hback⟩

/-- The dual is as large as the mesh, with vertices and faces in each other's places. -/
theorem sizeFault?_dualDesign :
    m.dualDesign.sizeFault? = oversize? m.faceCount m.vertexCount := by
  have hvertices : ∀ v, (∃ g i, m.dualDesign.net.Runs v g i) ↔ v ∈ List.range m.vertexCount := by
    intro v
    rw [List.mem_range, net_dualDesign h]
    constructor
    · rintro ⟨g, i, w, hi, -⟩
      exact (surface_iff.1 h).2.isVertex i v w hi
    · exact touches_of_isVertex h
  rw [Blueprint.sizeFault?_eq, labels_dualDesign,
    Blueprint.length_faceLabels_eq List.nodup_range hvertices, List.length_range, List.length_range]

/-- A surface that is too large has no dual. -/
theorem dual_eq_error_of_oversize {err : MeshError}
    (hsize : oversize? m.faceCount m.vertexCount = some err) : m.dual = .error err := by
  rw [← sizeFault?_dualDesign h] at hsize
  rw [dual, dualFaces, dualBlueprint_eq_ok h]
  simp only [Except.bind, Blueprint.faces_eq_error_of_sizeFault? hsize]
  rfl

end Design

/-- No edge of the dual lies in two of its faces. -/
theorem nodup_dualFlags (h : m.Polyhedral) : (m.dualDesign.flags.map Flag.edge).Nodup := by
  obtain ⟨-, hnet⟩ := polyhedral_iff.1 h
  have hedges : (edgesWithFace m.faces).Nodup :=
    List.Nodup.of_map Prod.fst (map_fst_edgesWithFace m ▸ h.edgesOnce)
  rw [dualDesign, List.map_map]
  refine hedges.map_on ?_
  rintro ⟨⟨u, v⟩, i⟩ he ⟨⟨x, y⟩, j⟩ he' heq
  rw [mem_edgesWithFace] at he he'
  obtain ⟨k, hback⟩ := hnet.paired i u v he
  obtain ⟨l, hback'⟩ := hnet.paired j x y he'
  rw [Function.comp_apply, Function.comp_apply, dualFlag_eq h.toSurface i hback,
    dualFlag_eq h.toSurface j hback'] at heq
  obtain ⟨rfl, rfl⟩ := Prod.mk.inj heq
  obtain ⟨rfl, rfl⟩ := hnet.edge_unique he hback he' hback'
  rfl

/-! ## Faces in the order of the vertices -/

/-- The table of faces has the vertices of each face. -/
theorem mem_getD_faces : u ∈ m.faces.toArray.getD i [] ↔ m.Touches i u := by
  rw [Array.getD_eq_getD_getElem?, List.getElem?_toArray]
  unfold Mesh.Touches
  cases m.faces[i]? <;> simp

section Owners

variable (h : m.Polyhedral)
include h

/-- The vertex of a dual face is what its first three faces have in common. -/
theorem ownerOf_eq_ok {around : Face} (hring : m.net.dual.Ring v around) (k : Nat) :
    ownerOf m.faces.toArray m.vertexCount k around = .ok v := by
  obtain ⟨-, hnet⟩ := polyhedral_iff.1 h
  obtain ⟨f, g, e, rest, rfl⟩ : ∃ f g e rest, around = f :: g :: e :: rest := by
    have hthree := hring.three_le
    match around, hthree with
    | f :: g :: e :: rest, _ => exact ⟨f, g, e, rest, rfl⟩
  have touches : ∀ {i}, i ∈ f :: g :: e :: rest → m.net.Touches i v := fun hi =>
    hnet.touches_dual_iff.1 (hring.touches_iff.2 hi)
  have vertices : ∀ {i u}, u ∈ m.faces.toArray.getD i [] ↔ m.net.Touches i u :=
    mem_getD_faces.trans touches_net_iff.symm
  have hnodup := hring.nodup
  simp only [List.nodup_cons, List.mem_cons, not_or] at hnodup
  obtain ⟨⟨hfg, hfe, -⟩, ⟨hge, -⟩, -⟩ := hnodup
  have hf := touches (i := f) (by simp)
  have hg := touches (i := g) (by simp)
  have he := touches (i := e) (by simp)
  have hcommon : Face.common? (m.faces.toArray.getD f []) (m.faces.toArray.getD g [])
      (m.faces.toArray.getD e []) = some v := by
    cases hfound : Face.common? (m.faces.toArray.getD f []) (m.faces.toArray.getD g [])
        (m.faces.toArray.getD e []) with
    | none =>
      have hnone := List.find?_eq_none.1 hfound v (vertices.2 hf)
      rw [Bool.and_eq_true, List.contains_iff_mem, List.contains_iff_mem] at hnone
      exact absurd ⟨vertices.2 hg, vertices.2 he⟩ hnone
    | some u =>
      have hsome := List.find?_some hfound
      have hu := vertices.1 (List.mem_of_find?_eq_some hfound)
      simp only [List.contains_iff_mem, Bool.and_eq_true, vertices] at hsome
      rw [hnet.common_unique hfg hge hfe hu hsome.1 hsome.2 hf hg he]
  obtain ⟨w, hr⟩ := hf
  simp only [ownerOf, hcommon]
  exact if_pos (hnet.isVertex f v w hr)

/-- The dual faces as assembled, each for its vertex. -/
theorem exists_assembled :
    ∃ vs fs, m.dualDesign.assembleFaces = .ok fs ∧
      List.Forall₂ (fun v f => m.net.dual.Ring v f) vs fs ∧
        vs.Nodup ∧ ∀ v, v < m.vertexCount → v ∈ vs := by
  have hsurface := (polyhedral_iff.1 h).2.dual.toSurface
  rw [← net_dualDesign h.toSurface] at hsurface
  obtain ⟨fs, hfs, hall⟩ := Blueprint.exists_assembleFaces hsurface
  refine ⟨m.dualDesign.faceLabels, fs, hfs, hall.imp ?_, Blueprint.nodup_faceLabels _, ?_⟩
  · rintro v _ ⟨ring, hring, rfl⟩
    have hsame : ring.map m.dualDesign.indexOf = ring := by
      refine (List.map_congr_left fun i hi => ?_).trans (List.map_id ring)
      obtain ⟨j, hr⟩ := hring.touches_iff.2 hi
      have hvertex := hsurface.isVertex v i j hr
      rw [net_dualDesign h.toSurface] at hvertex
      exact indexOf_dualDesign ((isVertex_dual_iff h.toSurface).1 hvertex)
    rw [hsame, ← net_dualDesign h.toSurface]
    exact hring
  · intro v hv
    rw [Blueprint.mem_faceLabels, net_dualDesign h.toSurface]
    exact touches_of_isVertex h.toSurface hv

/-- The dual has a face for each vertex, in order: a ring of the faces there. -/
theorem Polyhedral.exists_dualFaces (hlimits : m.WithinLimits) :
    ∃ ds, dualFaces m.faces m.vertexCount = .ok ds ∧
      List.Forall₂ (fun v f => m.net.dual.Ring v f) (List.range m.vertexCount) ds := by
  obtain ⟨vs, fs, hfs, hall, hnodup, hmem⟩ := exists_assembled h
  have howned : ownedFaces m.faces m.vertexCount fs = .ok (vs.zip fs) := by
    refine mapM_eq_ok_iff.2 (List.forall₂_iff_get.2 ⟨?_, fun k hk hk' => ?_⟩)
    · simp [hall.length_eq]
    · have hlt := Nat.lt_min.1 (List.length_zip ▸ hk')
      have hring := hall.get hlt.1 hlt.2
      simp only [List.get_eq_getElem, List.getElem_zipIdx, List.getElem_zip] at hring ⊢
      rw [ownerOf_eq_ok h hring]
      rfl
  have hkeys : ((vs.zip fs).map Prod.fst).Nodup := by
    rw [List.map_fst_zip hall.length_eq.le]
    exact hnodup
  rw [dualFaces, dualBlueprint_eq_ok h.toSurface]
  have hsize : m.dualDesign.sizeFault? = none := by
    rw [sizeFault?_dualDesign h.toSurface]
    exact oversize?_dual_eq_none.2 hlimits
  simp only [Except.bind, (Blueprint.faces_eq_assembleFaces hsize).trans hfs, orderByVertex, howned]
  refine exists_mapM_eq_ok fun v hv => ?_
  obtain ⟨f, hentry, hring⟩ := exists_zip_of_forall₂ hall (hmem v (List.mem_range.1 hv))
  exact ⟨f, by rw [(getElem?_lastByLabel_eq_some_iff hkeys).2 hentry], hring⟩

end Owners

/-! ## The dual mesh -/

/-- The net of the dual mesh is the dual of the net. -/
theorem net_dual {d : Mesh} (h : m.Surface) (hvertices : d.vertexCount = m.faceCount)
    (hfaces : List.Forall₂ (fun v f => m.net.dual.Ring v f) (List.range m.vertexCount) d.faces) :
    d.net = m.net.dual := by
  have hring : ∀ {v f}, d.faces[v]? = some f → m.net.dual.Ring v f := by
    intro v f hf
    obtain ⟨hlt, rfl⟩ := List.getElem?_eq_some_iff.1 hf
    have hrange : v < (List.range m.vertexCount).length := hfaces.length_eq ▸ hlt
    have hget := hfaces.get hrange hlt
    rw [List.get_eq_getElem, List.getElem_range] at hget
    exact hget
  ext
  · rw [isVertex_dual_iff h, ← hvertices]
    rfl
  · next v g i =>
    constructor
    · rintro ⟨f, hf, hgi⟩
      exact ((hring hf).runs_iff g i).2 hgi
    · intro hr
      obtain ⟨w, hi, -⟩ := id hr
      have hlt : v < d.faces.length := by
        rw [← hfaces.length_eq, List.length_range]
        exact (surface_iff.1 h).2.isVertex i v w hi
      have hf := List.getElem?_eq_getElem hlt
      exact ⟨_, hf, ((hring hf).runs_iff g i).1 hr⟩

/-- The dual has as many directed edges as the mesh: one for each of them. -/
theorem length_directedEdges_dual {d : Mesh} (h : m.Polyhedral) (hd : d.Polyhedral)
    (hnet : d.net = m.net.dual) : d.directedEdges.length = m.directedEdges.length := by
  have hperm : d.directedEdges.Perm (m.dualDesign.flags.map Flag.edge) := by
    refine (List.perm_ext_iff_of_nodup hd.edgesOnce (nodup_dualFlags h)).2 ?_
    rintro ⟨g, i⟩
    rw [mem_directedEdges, List.mem_map]
    constructor
    · rintro ⟨v, hr⟩
      have hr : m.net.dual.Runs v g i := hnet ▸ hr
      rw [← net_dualDesign h.toSurface] at hr
      exact ⟨⟨v, g, i⟩, hr, rfl⟩
    · rintro ⟨⟨v, _, _⟩, hr, heq⟩
      obtain ⟨rfl, rfl⟩ := Prod.mk.inj heq
      have hr : m.dualDesign.net.Runs v _ _ := hr
      rw [net_dualDesign h.toSurface, ← hnet] at hr
      exact ⟨v, hr⟩
  rw [hperm.length_eq, List.length_map, dualDesign, List.length_map, ← map_fst_edgesWithFace m,
    List.length_map]

/--
A polyhedron that is not too large has a dual, which is one too: its net is the
dual of the net.
-/
theorem Polyhedral.exists_dual (h : m.Polyhedral) (hlimits : m.WithinLimits) :
    ∃ d, m.dual = .ok d ∧ d.Polyhedral ∧ d.net = m.net.dual := by
  obtain ⟨ds, hds, hrings⟩ := h.exists_dualFaces hlimits
  let d : Mesh := ⟨dualName m.name, ds, Array.replicate m.faceCount Point.zero⟩
  have hnet : d.net = m.net.dual := net_dual h.toSurface Array.size_replicate hrings
  have hsimple : ∀ f ∈ d.faces, f.Simple := by
    intro f hf
    obtain ⟨v, -, hring⟩ := exists_zip_of_forall₂ hrings.flip hf
    exact ⟨hring.nodup, hring.three_le⟩
  refine ⟨d, ?_, polyhedral_iff.2 ⟨hsimple, hnet ▸ (polyhedral_iff.1 h).2.dual⟩, hnet⟩
  rw [dual, hds]
  rfl

/-- Whatever has a dual, it was not too large. -/
theorem Surface.withinLimits_of_dual {d : Mesh} (h : m.Surface) (hd : m.dual = .ok d) :
    m.WithinLimits := by
  rw [← oversize?_dual_eq_none, ← Option.not_isSome_iff_eq_none, Option.isSome_iff_exists]
  rintro ⟨err, hsize⟩
  rw [dual_eq_error_of_oversize h hsize] at hd
  cases hd

/-- The dual of a polyhedron is a polyhedron. -/
theorem Polyhedral.of_dual {d : Mesh} (h : m.Polyhedral) (hd : m.dual = .ok d) :
    d.Polyhedral ∧ d.net = m.net.dual := by
  obtain ⟨_, heq, hpoly⟩ := h.exists_dual (h.toSurface.withinLimits_of_dual hd)
  obtain rfl := Except.ok.inj (hd.symm.trans heq)
  exact hpoly

/-- The dual of a spherical polyhedron is spherical. -/
theorem Spherical.of_dual {d : Mesh} (h : m.Spherical) (hd : m.dual = .ok d) : d.Spherical := by
  obtain ⟨hpoly, hnet⟩ := h.toPolyhedral.of_dual hd
  obtain ⟨-, hfaces, hvertices⟩ := dual_eq_ok hd
  have hedges := length_directedEdges_dual h.toPolyhedral hpoly hnet
  have heuler := h.euler
  refine ⟨hpoly, ?_⟩
  rw [hvertices, hfaces, hedges]
  omega

end Mesh

end Polyhedra
