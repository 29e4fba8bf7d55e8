import Polyhedra.Proofs.Surface.Outlines
import Polyhedra.Proofs.Surface.Valence

/-!
# Gyro on a closed surface

Gyro keeps the old vertices, adds the centres of the faces and two points on each
edge, in this order, and lays out one pentagon after another, one for each corner
(`Mesh.Gyrates`).  A pentagon takes its points from both directions of one edge and
from one direction of the next, so that it borders on pentagons of two other faces;
on a closed surface all of them fit together.

## Main results

* `Mesh.Surface.faces_gyro` — the faces of the outcome.
* `Mesh.Surface.exists_gyrated` — what gyro makes of a closed surface.
-/

namespace Polyhedra

namespace Mesh

/--
The mesh `a` is `m` with every face divided into pentagons, one for each corner:
`point u v` is the point on the edge between `u` and `v` that is nearer to `u`.
-/
structure Gyrates (m a : Mesh) (point : Nat → Nat → Nat) : Prop where
  name : a.name = 'g' :: m.name
  /-- The points on edges come after the old vertices and the centres, two on each edge. -/
  points : Set.BijOn (fun e => point e.1 e.2) { e | e ∈ m.directedEdges }
    (Set.Ico (m.vertexCount + m.faceCount) a.vertexCount)
  /-- From its edge on, a pentagon goes by the vertex of its corner to the centre of its face. -/
  faces : a.faces = m.cornersWithFace.map fun (i, u, v, w) =>
    [point u v, point v u, v, point v w, m.vertexCount + i]

/-- The pentagons of gyro, each as its patch and the ring of its sites. -/
def gyroOutlines (m : Mesh) : List (Patch × List Site) :=
  m.cornersWithFace.map fun (i, u, v, w) =>
    (.corner i u, [.edge u v, .edge v u, .vertex v, .edge v w, .center i])

variable {m a : Mesh} {i v : Nat}

/-- The flags of gyro lay out one pentagon after another. -/
theorem flags_gyro_outlines (m : Mesh) :
    m.gyroDesign.flags.map (fun flag => (flag.face, flag.target)) =
      m.gyroOutlines.flatMap fun o => o.2.map (o.1, ·) := by
  rw [gyroDesign, gyroOutlines, List.map_flatMap, List.flatMap_map]
  rfl

section Surface

variable (h : m.Surface)
include h

/-! ## Numbers -/

theorem labels_gyro :
    m.gyroDesign.labels = (List.range m.vertexCount).map .vertex ++
      ((List.range m.faceCount).map .center ++ m.interiorSites.map Prod.fst) := by
  rw [Blueprint.labels_eq (nodup_keys_gyro h), gyroDesign, List.map_append, List.map_append,
    keys_vertexSites, keys_centerSites, List.append_assoc]

/-- An old vertex keeps its number. -/
theorem indexOf_vertex_gyro (hv : v < m.vertexCount) : m.gyroDesign.indexOf (.vertex v) = v := by
  have hindex :=
    Blueprint.indexOf_of_range ((labels_gyro h).trans (List.nil_append _).symm) hv
  simpa using hindex

/-- The centres follow the old vertices. -/
theorem indexOf_center_gyro (hi : i < m.faceCount) :
    m.gyroDesign.indexOf (.center i) = m.vertexCount + i := by
  rw [Blueprint.indexOf_of_range (labels_gyro h) hi, List.length_map, List.length_range]

/-! ## Faces -/

theorem ring_gyroOutlines : ∀ o ∈ m.gyroOutlines, m.gyroDesign.net.Ring o.1 o.2 := by
  intro o ho
  obtain ⟨⟨i, u, v, w⟩, hc, rfl⟩ := List.mem_map.1 ho
  have hring := ring_gyro h.toProper ((mem_cornersWithFace h.simple).1 hc)
  exact Net.Ring.append_comm (s := [Site.center i]) hring

theorem declared_gyroOutlines :
    ∀ o ∈ m.gyroOutlines, ∀ s ∈ o.2, s ∈ m.gyroDesign.labels := by
  intro o ho s hs
  obtain ⟨t, ht⟩ := (ring_gyroOutlines h o ho).touches_iff.2 hs
  exact mem_labels_of_runs_gyro h.toProper h.edgesPaired ht

/-- There is one pentagon for each corner, in order. -/
theorem Surface.faces_gyro :
    m.gyroDesign.assembleFaces = .ok (m.cornersWithFace.map fun (i, u, v, w) =>
      [m.gyroDesign.indexOf (.edge u v), m.gyroDesign.indexOf (.edge v u), v,
        m.gyroDesign.indexOf (.edge v w), m.vertexCount + i]) := by
  have hpatches : (m.gyroOutlines.map Prod.fst).Nodup := by
    rw [gyroOutlines, List.map_map]
    exact nodup_gyroPatches h
  rw [Blueprint.assembleFaces_eq_ok (flags_gyro_outlines m) hpatches (ring_gyroOutlines h)
    (declared_gyroOutlines h), gyroOutlines, List.map_map]
  refine congrArg Except.ok (List.map_congr_left ?_)
  rintro ⟨i, u, v, w⟩ hc
  have hc := (mem_cornersWithFace h.simple).1 hc
  have hv := indexOf_vertex_gyro h (h.toProper.isVertex hc.leaves)
  have hi := indexOf_center_gyro h (lt_faceCount_of_runs hc.enters)
  simp [hv, hi]

theorem gyrates_of_assembles (ha : m.gyroDesign.Assembles a) (hname : a.name = 'g' :: m.name)
    (hfaces : m.gyroDesign.assembleFaces = .ok a.faces) :
    m.Gyrates a (fun u v => m.gyroDesign.indexOf (.edge u v)) where
  name := hname
  points := by
    have hlabels := labels_gyro h
    rw [← List.append_assoc] at hlabels
    have hback := ha.bijOn_indexOf_append hlabels
    rw [List.length_append, List.length_map, List.length_map, List.length_range,
      List.length_range] at hback
    exact hback.comp (bijOn_interiorSites h.toProper)
  faces := Except.ok.inj (hfaces.symm.trans h.faces_gyro)

/-! ## Valences -/

section Valence

variable (ha : m.gyroDesign.Assembles a)
include ha

/-- An old vertex keeps its valence. -/
theorem valence_vertex_gyro (hv : v < m.vertexCount) : a.valence v = m.valence v := by
  obtain ⟨around, around', hold, hnew, hlength⟩ := star_gyro_vertex h hv
  have hvalence := ha.valence_eq (surface_gyro h) hnew
  rw [indexOf_vertex_gyro h hv] at hvalence
  rw [hvalence, hlength, h.valence_eq_length hold]

/-- A centre has as many edges as its face has sides. -/
theorem valence_center_gyro {f : Face} (hf : m.faces[i]? = some f) :
    a.valence (m.vertexCount + i) = f.length := by
  have hi : i < m.faceCount := (List.getElem?_eq_some_iff.1 hf).1
  have hvalence := ha.valence_eq (surface_gyro h) (star_gyro_center h hf)
  rwa [indexOf_center_gyro h hi, List.length_map] at hvalence

/-- Three edges meet at a point on an edge. -/
theorem valence_point_gyro {e : Nat × Nat} (he : e ∈ m.directedEdges) :
    a.valence (m.gyroDesign.indexOf (.edge e.1 e.2)) = 3 := by
  obtain ⟨i, hr⟩ := mem_directedEdges.1 he
  obtain ⟨around, hstar, hthree⟩ := star_gyro_edge h hr
  rw [ha.valence_eq (surface_gyro h) hstar, hthree]

end Valence

end Surface

/--
Gyro succeeds on every closed surface, unless there are going to be too many vertices
or faces.  Its faces are pentagons, one for each corner; the old vertices keep their
valence, the centres get that of their face, and the points on edges have three edges.
The outcome is a closed surface again, with five times as many edges and the same Euler
characteristic.
-/
theorem Surface.exists_gyrated (h : m.Surface) :
    (∀ e, oversize? (m.vertexCount + m.faceCount + 2 * m.edges.length) (2 * m.edges.length) =
        some e → m.gyro.outcome = .error e) ∧
      (oversize? (m.vertexCount + m.faceCount + 2 * m.edges.length) (2 * m.edges.length) = none →
        ∃ a point, m.gyro.outcome = .ok a ∧ m.Gyrates a point ∧
          a.vertexCount = m.vertexCount + m.faceCount + 2 * m.edges.length ∧
          a.faceCount = 2 * m.edges.length ∧ (∀ g ∈ a.faces, g.length = 5 ∧ g.Nodup) ∧
          (∀ v < m.vertexCount, a.valence v = m.valence v) ∧
          (∀ i f, m.faces[i]? = some f → a.valence (m.vertexCount + i) = f.length) ∧
          (∀ e ∈ m.directedEdges, a.valence (point e.1 e.2) = 3) ∧
          a.Surface ∧ a.edges.length = 5 * m.edges.length ∧ a.eulerNumber = m.eulerNumber) := by
  rw [← sizeFault?_gyroDesign h]
  refine ⟨fun e hsize => h.toProper.gyro_eq_error hsize, fun hsize => ?_⟩
  have hnet := surface_gyro h
  obtain ⟨a, hbuild, hname, ha⟩ := m.exists_build ['g'] hnet hsize
  have hgyrates := gyrates_of_assembles h ha hname (Blueprint.assembleFaces_of_assemble hbuild)
  have hold := h.two_mul_length_edges
  have hvertices : a.vertexCount = m.vertexCount + m.faceCount + 2 * m.edges.length := by
    rw [ha.1, length_labels_gyro h, hold]
  have hfaces : a.faceCount = 2 * m.edges.length := by
    rw [ha.faceCount_eq, length_faceLabels_gyro h, hold]
  have hedges : a.edges.length = 5 * m.edges.length := by
    have hnew := ha.two_mul_length_edges hnet (nodup_gyroFlags h)
    rw [length_flags_gyro] at hnew
    omega
  refine ⟨a, _, h.toProper.outcome_gyro.trans hbuild, hgyrates, hvertices, hfaces,
    fun g hg => ⟨?_, ((ha.surface hnet).simple g hg).nodup⟩,
    fun v hv => valence_vertex_gyro h ha hv, fun i f hf => valence_center_gyro h ha hf,
    fun e he => valence_point_gyro h ha he, ha.surface hnet, hedges, ?_⟩
  · rw [hgyrates.faces] at hg
    obtain ⟨_, -, rfl⟩ := List.mem_map.1 hg
    rfl
  · rw [eulerNumber, eulerNumber, hvertices, hfaces, hedges]
    omega

/-- The gyro of the cube has twenty-four pentagons. -/
theorem Surface.exists_gyrated_cube :
    cube.Surface ∧ ∃ a point, cube.gyro.outcome = .ok a ∧ cube.Gyrates a point ∧
      a.vertexCount = 38 ∧ a.faceCount = 24 ∧ (∀ g ∈ a.faces, g.length = 5 ∧ g.Nodup) ∧
        a.Surface ∧ a.edges.length = 60 ∧ a.eulerNumber = 2 := by
  have hcube : cube.Surface := spherical_cube.toSurface
  have hfaces : cube.faceCount = 6 := rfl
  have hvertices : cube.vertexCount = 8 := rfl
  have hedges := length_edges_cube
  obtain ⟨a, point, ha, hgyrates, hv, hf, hpentagons, -, -, -, hsurface, he, heuler⟩ :=
    (Surface.exists_gyrated hcube).2 (by rw [hedges, hfaces, hvertices]; decide)
  refine ⟨hcube, a, point, ha, hgyrates, by omega, by omega, hpentagons, hsurface, by omega, ?_⟩
  rw [heuler, eulerNumber]
  omega

/-- A prism of a modest size that gyro would make too large. -/
theorem Surface.gyro_outgrows_prism :
    (prism 1111111).Surface ∧
      (prism 1111111).gyro.outcome = .error (.tooManyVertices 10000001 maxVertices) := by
  have hspherical : (prism 1111111).Spherical := spherical_prism (by decide)
  have hsurface := hspherical.toSurface
  have hvertices : (prism 1111111).vertexCount = 2222222 := vertexCount_prism _
  have hfaces : (prism 1111111).faceCount = 1111113 := faceCount_prism _
  have hedges : (prism 1111111).edges.length = 3333333 := by
    have hformula := hspherical.euler_formula
    omega
  refine ⟨hsurface, hsurface.toProper.gyro_eq_error ?_⟩
  rw [sizeFault?_gyroDesign hsurface, hvertices, hfaces, hedges]
  exact oversize?_of_vertices (by decide)

end Mesh

end Polyhedra
