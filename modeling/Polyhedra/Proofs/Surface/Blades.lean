import Polyhedra.Proofs.Surface.Outlines
import Polyhedra.Proofs.Surface.Valence

/-!
# Propellor on a closed surface

Propellor keeps the old vertices and adds two points on each edge.  Each face is
turned, so that it goes round the first points of its edges, and at each corner the
gap is filled by a blade, a quadrilateral from the edge by which the face comes to
the corner to the one by which it leaves (`Mesh.Propels`).  A blade borders on the
turned face of its own corner and on the blades of neighbouring faces, which meet it
along the two points of an edge.

## Main results

* `Mesh.Surface.exists_propelled` — what propellor makes of a closed surface.
-/

namespace Polyhedra

namespace Mesh

/--
The mesh `a` is `m` with every face turned and a blade at each corner: `point u v`
is the point on the edge between `u` and `v` that is nearer to `u`, and `place` says
where the faces are.
-/
structure Propels (m a : Mesh) (point : Nat → Nat → Nat) (place : Patch → Nat) : Prop where
  name : a.name = 'p' :: m.name
  /-- The points on edges come after the old vertices, two on each edge. -/
  points : Set.BijOn (fun e => point e.1 e.2) { e | e ∈ m.directedEdges }
    (Set.Ico m.vertexCount a.vertexCount)
  /-- There is one turned face for each old face and one blade for each corner. -/
  places : Set.BijOn place ({ p | ∃ i < m.faceCount, p = .face i } ∪
    { p | ∃ i v, m.Touches i v ∧ p = .corner i v }) (Set.Iio a.faceCount)
  /-- A turned face goes round the edges of the old one. -/
  turned : ∀ i f, m.faces[i]? = some f → ∃ g, a.faces[place (.face i)]? = some g ∧
    g.length = f.length ∧ (f.edges.map fun e => point e.1 e.2).IsRotated g
  /-- A blade goes round the points next to its corner and the vertex of the corner. -/
  blades : ∀ i u v w, (i, u, v, w) ∈ m.cornersWithFace →
    ∃ g, a.faces[place (.corner i v)]? = some g ∧ g.length = 4 ∧ g.Nodup ∧
      [point u v, point v u, v, point v w].IsRotated g

variable {m a : Mesh} {i v : Nat}

section Surface

variable (h : m.Surface)
include h

theorem labels_propellor :
    m.propellorDesign.labels =
      (List.range m.vertexCount).map .vertex ++ m.interiorSites.map Prod.fst := by
  rw [Blueprint.labels_eq (nodup_keys_propellor h), propellorDesign, List.map_append,
    keys_vertexSites]

/-- An old vertex keeps its number. -/
theorem indexOf_vertex_propellor (hv : v < m.vertexCount) :
    m.propellorDesign.indexOf (.vertex v) = v := by
  have hindex :=
    Blueprint.indexOf_of_range ((labels_propellor h).trans (List.nil_append _).symm) hv
  simpa using hindex

section Assembled

variable (ha : m.propellorDesign.Assembles a)
include ha

theorem propels_of_assembles (hname : a.name = 'p' :: m.name) :
    m.Propels a (fun u v => m.propellorDesign.indexOf (.edge u v))
      m.propellorDesign.faceLabels.idxOf where
  name := hname
  points := by
    have hback := ha.bijOn_indexOf_append (labels_propellor h)
    rw [List.length_map, List.length_range] at hback
    exact hback.comp (bijOn_interiorSites h.toProper)
  places := by
    have hlabels : { p | p ∈ m.propellorDesign.faceLabels } =
        { p | ∃ i < m.faceCount, p = .face i } ∪
          { p | ∃ i v, m.Touches i v ∧ p = .corner i v } := by
      refine Set.ext fun p => Blueprint.mem_faceLabels.trans ?_
      rw [exists_runs_propellor_iff h]
      refine or_congr_right ⟨?_, ?_⟩
      · rintro ⟨i, u, v, w, hc, rfl⟩
        exact ⟨i, v, touches_net_iff.1 ⟨w, hc.leaves⟩, rfl⟩
      · rintro ⟨i, v, htouches, rfl⟩
        obtain ⟨w, hr⟩ := touches_net_iff.2 htouches
        obtain ⟨u, hc⟩ := h.toProper.ringed.exists_enters hr
        exact ⟨i, u, v, w, hc, rfl⟩
    rw [← hlabels]
    exact ha.bijOn_idxOf
  turned i f hf := by
    obtain ⟨g, hg, hrotated⟩ := ha.exists_isRotated (ring_propellor_face h.toProper hf)
    rw [List.map_map] at hrotated
    refine ⟨g, hg, ?_, hrotated⟩
    rw [← hrotated.perm.length_eq, List.length_map, Face.edges, length_cycleEdges]
  blades i u v w hc := by
    have hc := (mem_cornersWithFace h.simple).1 hc
    obtain ⟨g, hg, hrotated⟩ := ha.exists_isRotated (ring_propellor_corner h.toProper hc)
    have hlength := hrotated.perm.length_eq
    have hface := (ha.surface (surface_propellor h)).simple g (List.mem_of_getElem? hg)
    simp only [propellorRing, List.map_cons, List.map_nil,
      indexOf_vertex_propellor h (h.toProper.isVertex hc.leaves)] at hrotated hlength
    exact ⟨g, hg, hlength.symm, hface.nodup, hrotated⟩

/-- An old vertex keeps its valence. -/
theorem valence_vertex_propellor (hv : v < m.vertexCount) : a.valence v = m.valence v := by
  obtain ⟨around, around', hold, hnew, hlength⟩ := star_propellor_vertex h hv
  have hvalence := ha.valence_eq (surface_propellor h) hnew
  rw [indexOf_vertex_propellor h hv] at hvalence
  rw [hvalence, hlength, h.valence_eq_length hold]

/-- Four edges meet at a point on an edge. -/
theorem valence_point_propellor {e : Nat × Nat} (he : e ∈ m.directedEdges) :
    a.valence (m.propellorDesign.indexOf (.edge e.1 e.2)) = 4 := by
  obtain ⟨i, hr⟩ := mem_directedEdges.1 he
  obtain ⟨around, hstar, hfour⟩ := star_propellor_edge h hr
  rw [ha.valence_eq (surface_propellor h) hstar, hfour]

end Assembled

end Surface

/--
Propellor succeeds on every closed surface, unless there are going to be too many
vertices or faces.  Its faces are the old ones, turned, and one blade for each corner;
the old vertices keep their valence, and the points on edges have four edges.  The
outcome is a closed surface again, with five times as many edges and the same Euler
characteristic.
-/
theorem Surface.exists_propelled (h : m.Surface) :
    (∀ e, oversize? (m.vertexCount + 2 * m.edges.length) (m.faceCount + 2 * m.edges.length) =
        some e → m.propellor.outcome = .error e) ∧
      (oversize? (m.vertexCount + 2 * m.edges.length) (m.faceCount + 2 * m.edges.length) = none →
        ∃ a point place, m.propellor.outcome = .ok a ∧ m.Propels a point place ∧
          a.vertexCount = m.vertexCount + 2 * m.edges.length ∧
          a.faceCount = m.faceCount + 2 * m.edges.length ∧
          (∀ v < m.vertexCount, a.valence v = m.valence v) ∧
          (∀ e ∈ m.directedEdges, a.valence (point e.1 e.2) = 4) ∧
          a.Surface ∧ a.edges.length = 5 * m.edges.length ∧ a.eulerNumber = m.eulerNumber) := by
  rw [← sizeFault?_propellorDesign h]
  refine ⟨fun e hsize => h.toProper.propellor_eq_error hsize, fun hsize => ?_⟩
  have hnet := surface_propellor h
  obtain ⟨a, hbuild, hname, ha⟩ := m.exists_build ['p'] hnet hsize
  have hold := h.two_mul_length_edges
  have hvertices : a.vertexCount = m.vertexCount + 2 * m.edges.length := by
    rw [ha.1, length_labels_propellor h, hold]
  have hfaces : a.faceCount = m.faceCount + 2 * m.edges.length := by
    rw [ha.faceCount_eq, length_faceLabels_propellor h, hold]
  have hedges : a.edges.length = 5 * m.edges.length := by
    have hnew := ha.two_mul_length_edges hnet (nodup_propellorFlags h)
    rw [length_flags_propellor] at hnew
    omega
  refine ⟨a, _, _, h.toProper.outcome_propellor.trans hbuild, propels_of_assembles h ha hname,
    hvertices, hfaces, fun v hv => valence_vertex_propellor h ha hv,
    fun e he => valence_point_propellor h ha he, ha.surface hnet, hedges, ?_⟩
  rw [eulerNumber, eulerNumber, hvertices, hfaces, hedges]
  omega

/-- The propellor of the cube has six turned squares and twenty-four blades. -/
theorem Surface.exists_propelled_cube :
    cube.Surface ∧ ∃ a point place, cube.propellor.outcome = .ok a ∧
      cube.Propels a point place ∧ a.vertexCount = 32 ∧ a.faceCount = 30 ∧ a.Surface ∧
        a.edges.length = 60 ∧ a.eulerNumber = 2 := by
  have hcube : cube.Surface := spherical_cube.toSurface
  have hfaces : cube.faceCount = 6 := rfl
  have hvertices : cube.vertexCount = 8 := rfl
  have hedges := length_edges_cube
  obtain ⟨a, point, place, ha, hpropels, hv, hf, -, -, hsurface, he, heuler⟩ :=
    (Surface.exists_propelled hcube).2 (by rw [hedges, hfaces, hvertices]; decide)
  refine ⟨hcube, a, point, place, ha, hpropels, by omega, by omega, hsurface, by omega, ?_⟩
  rw [heuler, eulerNumber]
  omega

/-- A prism of a modest size that propellor would make too large. -/
theorem Surface.propellor_outgrows :
    (prism 1250001).Surface ∧
      (prism 1250001).propellor.outcome = .error (.tooManyVertices 10000008 maxVertices) := by
  have hspherical : (prism 1250001).Spherical := spherical_prism (by decide)
  have hsurface := hspherical.toSurface
  have hvertices : (prism 1250001).vertexCount = 2500002 := vertexCount_prism _
  have hedges : (prism 1250001).edges.length = 3750003 := by
    have hformula := hspherical.euler_formula
    rw [hvertices, faceCount_prism] at hformula
    omega
  refine ⟨hsurface, hsurface.toProper.propellor_eq_error ?_⟩
  rw [sizeFault?_propellorDesign hsurface, hvertices, hedges]
  exact oversize?_of_vertices (by decide)

end Mesh

end Polyhedra
