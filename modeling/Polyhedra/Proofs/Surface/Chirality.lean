import Polyhedra.Proofs.Surface.Absorption

/-!
# The two gyros

Gyro can be turned either way, and the gyro of the dual is turned the other way.
That the two are not always the same surface can be told by counting: where three
faces meet at every vertex and no face is a triangle, the centres of the faces are
the only vertices of the gyro with four or more pentagons, while in the gyro of
the dual these are the vertices of the dual.  So an isomorphism would take centres
to vertices.  But from a centre it is one step forwards to the first place of an
edge and two steps to the second place, to which the centre on the other side is
joined; two steps forwards from a vertex lies a centre, and no vertex is joined to
it.

## Main results

* `Mesh.length_star` — a vertex is surrounded by as many faces as have it.
* `Mesh.Polyhedral.not_isomorphic_gyro_dual` — the gyro of the dual is not the gyro.
-/

namespace Polyhedra

namespace Mesh

variable {m d : Mesh} {i v : Nat}

/-- The number of faces at a vertex. -/
def degree (m : Mesh) (v : Nat) : Nat := m.faces.countP (v ∈ ·)

theorem length_star {around : List Nat} (h : m.net.Star v around) :
    around.length = m.degree v := by
  let positions := (m.faces.zipIdx.filter fun x => v ∈ x.1).map Prod.snd
  have hnodup : positions.Nodup := by
    have hall : (m.faces.zipIdx.map Prod.snd).Nodup := by
      rw [List.zipIdx_map_snd]
      exact List.nodup_range'
    exact hall.sublist (List.filter_sublist.map Prod.snd)
  have hmem : ∀ i, i ∈ around ↔ i ∈ positions := by
    intro i
    rw [h.mem_iff, touches_net_iff, List.mem_map]
    constructor
    · rintro ⟨f, hf, hv⟩
      exact ⟨(f, i), List.mem_filter.2 ⟨List.mem_zipIdx_iff_getElem?.2 hf, by simpa using hv⟩, rfl⟩
    · rintro ⟨⟨f, i⟩, hfi, rfl⟩
      obtain ⟨hfi, hv⟩ := List.mem_filter.1 hfi
      exact ⟨f, List.mem_zipIdx_iff_getElem?.1 hfi, by simpa using hv⟩
  have hcount : positions.length = m.degree v := by
    rw [List.length_map, ← List.countP_eq_length_filter, degree]
    conv_rhs => rw [← List.zipIdx_map_fst 0 m.faces, List.countP_map]
    rfl
  rw [((List.perm_ext_iff_of_nodup h.nodup hnodup).2 hmem).length_eq, hcount]

section Gyro

variable (h : m.Polyhedral) (hd : d.Polyhedral) (hnet : d.net = m.net.dual)
  (hdegree : ∀ v < m.vertexCount, m.degree v = 3)
include h hd hnet hdegree

omit hd in
/-- The dual face of a vertex has as many sides as there are faces at the vertex. -/
theorem length_face_dual {f : Face} (hf : d.faces[v]? = some f) (hsimple : f.Simple) :
    f.length = 3 := by
  obtain ⟨-, hm⟩ := polyhedral_iff.1 h
  have hring := ring_net hf hsimple
  rw [hnet] at hring
  obtain ⟨i, hi⟩ := hring.exists_touches
  obtain ⟨w, hw⟩ := hm.touches_dual_iff.1 hi
  have hv := hm.isVertex i v w hw
  obtain ⟨around, hstar⟩ := hm.exists_star v hv
  rw [(hring.isRotated (hm.ring_dual hstar)).perm.length_eq, length_star hstar, hdegree v hv]

variable {φ : Site → Site} {ψ : Patch → Patch}
  (hren : m.gyroDesign.net.Renames d.gyroDesign.net φ ψ)
include hren

/-- Centres of faces that are no triangles could only go to vertices. -/
theorem vertex_of_center {f : Face} (hf : m.faces[i]? = some f) (hfour : 4 ≤ f.length) :
    ∃ j, φ (.center i) = .vertex j := by
  have hi : i < m.faceCount := (List.getElem?_eq_some_iff.1 hf).1
  have hcenter : m.gyroDesign.net.IsVertex (.center i) :=
    (mem_labels_gyro h.toProper).2 (.inr (.inl ⟨i, hi, rfl⟩))
  have hstar := hren.star (surface_gyro h.toSurface) hcenter (star_gyro_center h.toSurface hf)
  have four : ∀ {around}, d.gyroDesign.net.Star (φ (.center i)) around → 4 ≤ around.length := by
    intro around hstar'
    rw [hstar'.length_eq hstar, List.length_map, List.length_map]
    exact hfour
  rcases (mem_labels_gyro hd.toProper).1 (hren.isVertex hcenter) with
    ⟨j, -, hj⟩ | ⟨v, hv, hcenter'⟩ | ⟨v, i, j, hr, hedge⟩
  · exact ⟨j, hj⟩
  · have hfv : d.faces[v]? = some d.faces[v] := List.getElem?_eq_getElem hv
    have hlength := four (hcenter' ▸ star_gyro_center hd.toSurface hfv)
    rw [List.length_map, length_face_dual h hnet hdegree hfv (hd.simple _ (List.getElem_mem hv))]
      at hlength
    omega
  · obtain ⟨around, hstar', hthree⟩ := star_gyro_edge hd.toSurface hr
    have hlength := four (hedge ▸ hstar')
    omega

end Gyro

section Pentagons

variable (h : m.Surface) {p : Patch} {s t : Site}
include h

/-- Two steps forwards from an old vertex lies a centre. -/
theorem center_of_two_steps (hs : m.gyroDesign.net.Runs p (.vertex v) s)
    (ht : m.gyroDesign.net.Runs p s t) : ∃ i, t = .center i := by
  obtain ⟨i, u, v', w, hc, rfl, he⟩ := (runs_gyro h.simple).1 hs
  obtain ⟨rfl, rfl⟩ : v = v' ∧ s = .edge v' w := by simpa using he
  have hring := ring_gyro h.toProper hc
  have hlast : (Site.edge v w, Site.center i) ∈ cycleEdges (gyroRing i u v w) := by simp
  exact ⟨i, cycleEdges_right_unique hring.nodup ((hring.runs_iff _ _).1 ht) hlast⟩

/-- No old vertex is joined to a centre. -/
theorem not_runs_vertex_center : ¬ m.gyroDesign.net.Runs p (.vertex v) (.center i) := by
  intro hr
  obtain ⟨j, u, v', w, -, -, he⟩ := (runs_gyro h.simple).1 hr
  simp at he

end Pentagons

/-- An isomorphism would take the centres of two faces with a common edge to vertices. -/
theorem not_isomorphic_gyroDesign_dual (h : m.Polyhedral) (hd : d.Polyhedral)
    (hnet : d.net = m.net.dual) (hdegree : ∀ v < m.vertexCount, m.degree v = 3)
    (hfour : ∀ f ∈ m.faces, 4 ≤ f.length) (hne : m.faces ≠ []) :
    ¬ m.gyroDesign.net.Isomorphic d.gyroDesign.net := by
  rintro ⟨φ, ψ, hren⟩
  obtain ⟨hsimple, hm⟩ := polyhedral_iff.1 h
  have hvertex : ∀ {i u v}, m.net.Runs i u v → ∃ j, φ (.center i) = .vertex j := by
    rintro i u v ⟨f, hf, -⟩
    exact vertex_of_center h hd hnet hdegree hren hf (hfour f (List.mem_of_getElem? hf))
  obtain ⟨u, v, hi⟩ := exists_runs h.toSurface (List.length_pos_iff.2 hne)
  obtain ⟨j, hj⟩ := hm.paired 0 u v hi
  obtain ⟨w, hc⟩ := hm.exists_leaves hi
  obtain ⟨x, hc'⟩ := hm.exists_leaves hj
  obtain ⟨a, ha⟩ := hvertex hi
  obtain ⟨b, hb⟩ := hvertex hj
  have hring := ring_gyro h.toProper hc
  have hring' := ring_gyro h.toProper hc'
  have hfirst := hren.runs ((hring.runs_iff (.center 0) (.edge u v)).2 (by simp))
  have hsecond := hren.runs ((hring.runs_iff (.edge u v) (.edge v u)).2 (by simp))
  have hacross := hren.runs ((hring'.runs_iff (.center j) (.edge v u)).2 (by simp))
  rw [ha] at hfirst
  obtain ⟨c, hcenter⟩ := center_of_two_steps hd.toSurface hfirst hsecond
  rw [hb, hcenter] at hacross
  exact not_runs_vertex_center hd.toSurface hacross

/--
Where three faces meet at every vertex and none of them is a triangle, the gyro of
the dual and the gyro are built, if they are not too large, but are different oriented
surfaces.
-/
theorem Polyhedral.not_isomorphic_gyro_dual (h : m.Polyhedral)
    (hsize : m.gyroDesign.sizeFault? = none) (hdegree : ∀ v < m.vertexCount, m.degree v = 3)
    (hfour : ∀ f ∈ m.faces, 4 ≤ f.length) (hne : m.faces ≠ []) :
    ∃ d g g', m.dual = .ok d ∧ d.gyro.outcome = .ok g' ∧ m.gyro.outcome = .ok g ∧
      ¬ g'.Isomorphic g := by
  obtain ⟨d, hd, hpoly, hnet⟩ := h.exists_dual (h.toSurface.withinLimits_of_gyro hsize)
  obtain ⟨g, hg, hgpoly, hgnet⟩ := h.exists_gyro hsize
  obtain ⟨g', hg', hgpoly', hgnet'⟩ :=
    hpoly.exists_gyro ((h.sizeFault?_gyro_dual hd).trans hsize)
  refine ⟨d, g, g', hd, hg', hg, fun hiso => ?_⟩
  have hiso := (isomorphic_iff_net hgpoly'.toSurface hgpoly.toSurface).1 hiso
  have hback := hgnet'.symm (surface_gyro hpoly.toSurface)
  have hsame := hgnet.trans ((hiso.symm (surface_iff.1 hgpoly'.toSurface).2).trans hback)
  exact not_isomorphic_gyroDesign_dual h hpoly hnet hdegree hfour hne hsame

/-- The gyro of the dual of the cube is not the gyro of the cube. -/
theorem Polyhedral.not_isomorphic_gyro_dual_cube :
    cube.Polyhedral ∧ ∃ d g g', cube.dual = .ok d ∧ d.gyro.outcome = .ok g' ∧
      cube.gyro.outcome = .ok g ∧ ¬ g'.Isomorphic g := by
  have hpoly : cube.Polyhedral := spherical_cube.toPolyhedral
  have hsize : cube.gyroDesign.sizeFault? = none := by
    rw [sizeFault?_gyroDesign hpoly.toSurface, length_edges_cube]
    decide
  exact ⟨hpoly, hpoly.not_isomorphic_gyro_dual hsize (by decide) (by decide) (by decide)⟩

end Mesh

end Polyhedra
