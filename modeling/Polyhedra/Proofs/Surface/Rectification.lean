import Polyhedra.Proofs.Surface.Valence

/-!
# Ambo on a closed surface

Ambo puts one vertex into the middle of each edge.  The new faces are one inside
each old face, round the middles of its edges, and one round each old vertex,
through the middles of the edges at it in the order of its spokes
(`Mesh.Rectifies`).  A midpoint is declared in one direction of its edge only, and
the face round a vertex is put together from flags at the corners of all its faces;
both come out since the edges are paired and the faces at a vertex are a star.

## Main results

* `Mesh.Surface.exists_rectified` — what ambo makes of a closed surface.
-/

namespace Polyhedra

namespace Mesh

/--
The mesh `a` is `m` with every vertex cut off at the middles of its edges:
`middle u v` is the vertex between `u` and `v`, and `place` says where the faces
are.
-/
structure Rectifies (m a : Mesh) (middle : Nat → Nat → Nat) (place : Patch → Nat) : Prop where
  name : a.name = 'a' :: m.name
  /-- The vertices are the middles of the edges, one for each. -/
  middles : Set.BijOn (fun e => middle e.1 e.2) { e | e ∈ m.edges } (Set.Iio a.vertexCount)
  /-- An edge has its middle whichever way it is named. -/
  middle_comm : ∀ u v, middle u v = middle v u
  /-- There is one face for each old face and one for each old vertex. -/
  places : Set.BijOn place ({ p | ∃ i < m.faceCount, p = .face i } ∪
    { p | ∃ v < m.vertexCount, p = .vertex v }) (Set.Iio a.faceCount)
  /-- Inside a face its edges follow one another. -/
  inside : ∀ i f, m.faces[i]? = some f → ∃ g, a.faces[place (.face i)]? = some g ∧
    (f.edges.map fun e => middle e.1 e.2).IsRotated g
  /-- Round a vertex all edges at it follow one another. -/
  around : ∀ v < m.vertexCount, ∃ spokes g, m.net.Spokes v spokes ∧
    a.faces[place (.vertex v)]? = some g ∧ g.length = m.valence v ∧
      (spokes.map (middle v)).IsRotated g

variable {m a : Mesh}

section Surface

variable (h : m.Surface)
include h

theorem rectifies_of_assembles (ha : m.amboDesign.Assembles a) (hname : a.name = 'a' :: m.name) :
    m.Rectifies a (fun u v => m.amboDesign.indexOf (.middle u v))
      m.amboDesign.faceLabels.idxOf where
  name := hname
  middles := by
    have hmiddles : Set.BijOn (fun e : Nat × Nat => Site.middle e.1 e.2) { e | e ∈ m.edges }
        { s | s ∈ m.amboDesign.labels } := by
      refine ⟨fun e he => ?_, fun e he e' he' heq => edge_eq_of_middle_eq h he he' heq, ?_⟩
      · exact (mem_labels_ambo_iff_edges h).2 ⟨e, he, rfl⟩
      · exact fun s hs => (mem_labels_ambo_iff_edges h).1 hs
    exact ha.bijOn_indexOf.comp hmiddles
  middle_comm u v := by rw [Site.middle_comm]
  places := by
    have hlabels : { p | p ∈ m.amboDesign.faceLabels } =
        { p | ∃ i < m.faceCount, p = .face i } ∪ { p | ∃ v < m.vertexCount, p = .vertex v } :=
      Set.ext fun p => Blueprint.mem_faceLabels.trans (exists_runs_ambo_iff h)
    rw [← hlabels]
    exact ha.bijOn_idxOf
  inside i f hf := by
    obtain ⟨g, hg, hrotated⟩ := ha.exists_isRotated (ring_ambo_face h.toProper hf)
    rw [List.map_map] at hrotated
    exact ⟨g, hg, hrotated⟩
  around v hv := by
    obtain ⟨-, hnet⟩ := surface_iff.1 h
    obtain ⟨-, spokes, -, hspokes, -⟩ := hnet.exists_spokes hv
    obtain ⟨g, hg, hrotated⟩ := ha.exists_isRotated (ring_ambo_vertex h hspokes)
    rw [List.map_map] at hrotated
    refine ⟨spokes, g, hspokes, hg, ?_, hrotated⟩
    rw [h.valence_eq_of_spokes hspokes, ← hrotated.perm.length_eq, List.length_map]

end Surface

/--
Ambo succeeds on every closed surface that does not have too many edges, or too many
faces and vertices together.  The vertices of the outcome are the middles of the edges,
and its faces one for each old face and one for each old vertex.  It is a closed
surface again, with four edges at every vertex, twice as many edges, and the same Euler
characteristic.
-/
theorem Surface.exists_rectified (h : m.Surface) :
    (∀ e, oversize? m.edges.length (m.faceCount + m.vertexCount) = some e →
        m.ambo.outcome = .error e) ∧
      (oversize? m.edges.length (m.faceCount + m.vertexCount) = none →
        ∃ a middle place, m.ambo.outcome = .ok a ∧ m.Rectifies a middle place ∧
          a.vertexCount = m.edges.length ∧ a.faceCount = m.faceCount + m.vertexCount ∧
          a.Surface ∧ (∀ v < a.vertexCount, a.valence v = 4) ∧
          a.edges.length = 2 * m.edges.length ∧ a.eulerNumber = m.eulerNumber) := by
  rw [← sizeFault?_amboDesign h]
  refine ⟨fun e hsize => h.toProper.ambo_eq_error hsize, fun hsize => ?_⟩
  have hnet := surface_ambo h
  obtain ⟨a, hbuild, hname, ha⟩ := m.exists_build ['a'] hnet hsize
  have hvertices : a.vertexCount = m.edges.length := ha.1.trans (length_labels_ambo h)
  have hfaces : a.faceCount = m.faceCount + m.vertexCount :=
    ha.faceCount_eq.trans (length_faceLabels_ambo h)
  have hedges : a.edges.length = 2 * m.edges.length := by
    have hold := h.two_mul_length_edges
    have hnew := ha.two_mul_length_edges hnet (nodup_amboFlags h)
    rw [length_flags_ambo] at hnew
    omega
  refine ⟨a, _, _, h.toProper.outcome_ambo.trans hbuild, rectifies_of_assembles h ha hname,
    hvertices, hfaces, ha.surface hnet, fun k hk => ?_, hedges, ?_⟩
  · obtain ⟨s, hs, rfl⟩ := ha.bijOn_indexOf.surjOn hk
    obtain ⟨i, u, v, -, hr, rfl⟩ := (mem_labels_ambo h.toProper).1 hs
    obtain ⟨around, hstar, hfour⟩ := star_ambo h hr
    rw [ha.valence_eq hnet hstar, hfour]
  · rw [eulerNumber, eulerNumber, hvertices, hfaces, hedges]
    omega

/-- The ambo of the cube is the cuboctahedron: eight triangles and six squares. -/
theorem Surface.exists_rectified_cube :
    cube.Surface ∧ ∃ a middle place, cube.ambo.outcome = .ok a ∧
      cube.Rectifies a middle place ∧ a.vertexCount = 12 ∧ a.faceCount = 14 ∧ a.Surface ∧
        (∀ v < 12, a.valence v = 4) ∧ a.edges.length = 24 ∧ a.eulerNumber = 2 := by
  have hcube : cube.Surface := spherical_cube.toSurface
  have hfaces : cube.faceCount = 6 := rfl
  have hvertices : cube.vertexCount = 8 := rfl
  have hedges := length_edges_cube
  obtain ⟨a, middle, place, ha, hrectifies, hv, hf, hsurface, hfour, he, heuler⟩ :=
    (Surface.exists_rectified hcube).2 (by rw [hedges, hfaces, hvertices]; decide)
  have htwelve : a.vertexCount = 12 := by omega
  refine ⟨hcube, a, middle, place, ha, hrectifies, htwelve, by omega, hsurface, ?_, by omega, ?_⟩
  · rwa [htwelve] at hfour
  · rw [heuler, eulerNumber]
    omega

/-- A prism with more edges than a solid may have vertices. -/
theorem Surface.ambo_outgrows :
    (prism 3333334).Surface ∧
      (prism 3333334).ambo.outcome = .error (.tooManyVertices 10000002 maxVertices) := by
  have hspherical : (prism 3333334).Spherical := spherical_prism (by decide)
  have hsurface := hspherical.toSurface
  have hedges : (prism 3333334).edges.length = 10000002 := by
    have hformula := hspherical.euler_formula
    rw [vertexCount_prism, faceCount_prism] at hformula
    omega
  refine ⟨hsurface, hsurface.toProper.ambo_eq_error ?_⟩
  rw [sizeFault?_amboDesign hsurface, hedges]
  exact oversize?_of_vertices (by decide)

end Mesh

end Polyhedra
