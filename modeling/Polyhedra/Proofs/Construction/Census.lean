import Polyhedra.Proofs.Construction.Soundness
import Polyhedra.Proofs.Surface.Antiprism

/-!
# The census of the families

How many faces, vertices and edges the prism, the antiprism and the pyramid over a polygon
have, and how many faces meet at each of their vertices.  The wheels of the vertices are known
already, and so is Euler's formula; the edges need not be counted.

Positions do not enter into a census, and relaxation moves nothing but points: what is built
from a seed of a family has the faces of the seed, and its dual those of the dual of the seed.

## Main results

* `Mesh.Spherical.census` — a census is taken from the wheels of the vertices.
* `Mesh.census_prism`, `Mesh.census_antiprism`, `Mesh.census_pyramid` — those of the families.
* `Seed.families_sound` — the families are polyhedra of the right size, and have duals and are
  built, whatever the settings, unless they are too large.
-/

namespace Polyhedra

namespace Mesh

variable {m : Mesh} {n i v w : Nat}

/-- On a closed surface another face runs back along an edge, and only that one does. -/
theorem Surface.exists_opposite (h : m.Surface) (hr : m.RunsAlong i v w) :
    (∀ j, m.RunsAlong j v w → j = i) ∧
      ∃ j, j ≠ i ∧ m.RunsAlong j w v ∧ ∀ k, m.RunsAlong k w v → k = j := by
  obtain ⟨-, hnet⟩ := surface_iff.1 h
  obtain ⟨j, hj⟩ := hnet.paired i v w hr
  refine ⟨fun k hk => hnet.once k i v w hk hr, j, ?_, hj, fun k hk => hnet.once k j w v hk hj⟩
  rintro rfl
  exact hnet.not_back hr hj

/--
A polyhedron with so many faces, vertices and edges, and so many faces around each vertex.
-/
structure Census (m : Mesh) (faces vertices edges : Nat) (degree : Nat → Nat) : Prop
    extends Polyhedral m where
  faceCount : m.faceCount = faces
  vertexCount : m.vertexCount = vertices
  length_edges : m.edges.length = edges
  /-- Euler's formula counts the edges that there are. -/
  edgeCount : m.edgeCount = edges
  /-- Along every edge there is just one face, and just one other face runs back. -/
  opposite : ∀ i v w, m.RunsAlong i v w → (∀ j, m.RunsAlong j v w → j = i) ∧
    ∃ j, j ≠ i ∧ m.RunsAlong j w v ∧ ∀ k, m.RunsAlong k w v → k = j
  exists_around : ∀ v < vertices, ∃ around, m.Encircles v around ∧ around.length = degree v

/-- A census is taken from the wheels of the vertices; Euler's formula tells the edges. -/
theorem Spherical.census {faces vertices edges : Nat} {degree : Nat → Nat} (h : m.Spherical)
    (hfaces : m.faceCount = faces) (hvertices : m.vertexCount = vertices)
    (heuler : vertices + faces = edges + 2)
    (hwheel : ∀ v < vertices, ∃ wheel, m.net.Wheel v wheel ∧ wheel.length = degree v) :
    m.Census faces vertices edges degree where
  toPolyhedral := h.toPolyhedral
  faceCount := hfaces
  vertexCount := hvertices
  length_edges := by
    have hformula := h.euler_formula
    omega
  edgeCount := by
    rw [Mesh.edgeCount, hfaces, hvertices]
    omega
  opposite _ _ _ hr := h.exists_opposite hr
  exists_around v hv := by
    obtain ⟨wheel, hwheel, hlength⟩ := hwheel v hv
    refine ⟨wheel.map Prod.fst, encircles_iff.2 hwheel.star, ?_⟩
    rw [List.length_map, hlength]

/-! ## The families -/

variable (hn : 3 ≤ n)
include hn

theorem census_prism : (prism n).Census (n + 2) (2 * n) (3 * n) fun _ => 3 := by
  refine (spherical_prism hn).census (faceCount_prism n) ?_ (by omega) fun v hv => ?_
  · rw [vertexCount_prism, Nat.two_mul]
  · obtain ⟨j, k, hj, hnext, rfl | rfl⟩ := exists_next_half (Nat.two_mul n ▸ hv)
    · exact ⟨_, wheel_prism_upper hn hj hnext, rfl⟩
    · exact ⟨_, wheel_prism_lower hn hj hnext, rfl⟩

theorem census_antiprism : (antiprism n).Census (2 * n + 2) (2 * n) (4 * n) fun _ => 4 := by
  refine (spherical_antiprism hn).census (faceCount_antiprism n) ?_ (by omega) fun v hv => ?_
  · rw [vertexCount_antiprism, Nat.two_mul]
  · obtain ⟨j, k, hj, hnext, rfl | rfl⟩ := exists_next_half (Nat.two_mul n ▸ hv)
    · exact ⟨_, wheel_antiprism_upper hn hj hnext, rfl⟩
    · exact ⟨_, wheel_antiprism_lower hn hj hnext, rfl⟩

/-- The apex is the last vertex. -/
theorem census_pyramid :
    (pyramid n).Census (n + 1) (n + 1) (2 * n) fun v => if v < n then 3 else n := by
  refine (spherical_pyramid hn).census (faceCount_pyramid n) (vertexCount_pyramid n) (by omega)
    fun v hv => ?_
  rcases Nat.lt_succ_iff_lt_or_eq.1 hv with hlt | rfl
  · obtain ⟨j, hj, hnext⟩ := exists_next_eq hlt
    exact ⟨_, wheel_pyramid_base hn hj hnext, by simp [hlt]⟩
  · exact ⟨_, wheel_pyramid_apex hn, by simp⟩

end Mesh

namespace Seed

variable {seed : Seed} {n : Nat}

theorem exists_relaxation (hsides : seed.sides? = some n) (settings : Settings) :
    ∃ relaxation, seed.relaxation? settings = some relaxation := by
  cases seed with
  | prism k => exact ⟨_, rfl⟩
  | antiprism k => exact ⟨_, rfl⟩
  | pyramid k => exact ⟨_, rfl⟩
  | _ => cases hsides

/-- A seed over a polygon that has no dual is not built, for the same reason. -/
theorem build_eq_error (hsides : seed.sides? = some n) {e : MeshError}
    (hdual : seed.mesh.dual = .error e) (settings : Settings) :
    (seed.build settings).outcome = .error e := by
  obtain ⟨⟨rule, count⟩, hrelaxation⟩ := exists_relaxation hsides settings
  rw [outcome_build, hrelaxation]
  simp only [Relaxation.outcome_relax, hdual]
  rfl

/-- A seed over a polygon that is not too large has a dual, and is built with one. -/
theorem exists_built (hsides : seed.sides? = some n) (hsound : seed.mesh.Sound) :
    ∃ d, seed.mesh.dual = .ok d ∧ ∀ settings, ∃ p,
      (seed.build settings).outcome = .ok (.ofPair p) ∧ p.solid.Alike seed.mesh ∧
        p.dual.Alike d := by
  obtain ⟨d, hd, -⟩ := hsound.exists_dual
  refine ⟨d, hd, fun settings => ?_⟩
  obtain ⟨⟨rule, count⟩, hrelaxation⟩ := exists_relaxation hsides settings
  obtain ⟨p, hp, -⟩ := rule.exists_sound count hsound
  obtain ⟨d', hd', hsolid, hdual⟩ := Relaxation.exists_dual hp
  obtain rfl := Except.ok.inj (hd.symm.trans hd')
  refine ⟨p, ?_, hsolid, hdual⟩
  rw [outcome_build, hrelaxation]
  simp only [hp]
  rfl

/--
Prisms, antiprisms and pyramids over a polygon with three sides or more are polyhedra of the
size that one expects.  They have duals, unless these would be too large.  Whatever the
settings, those that have a dual are built: into a solid with the same faces, and with a dual
that has the faces of the dual; the others fail as their duals do.
-/
theorem families_sound (hn : 3 ≤ n) :
    (Mesh.prism n).Census (n + 2) (2 * n) (3 * n) (fun _ => 3) ∧
      (Mesh.antiprism n).Census (2 * n + 2) (2 * n) (4 * n) (fun _ => 4) ∧
      (Mesh.pyramid n).Census (n + 1) (n + 1) (2 * n) (fun v => if v < n then 3 else n) ∧
      ∀ seed ∈ [prism n, antiprism n, pyramid n],
        (∀ e, oversize? seed.mesh.faceCount seed.mesh.vertexCount = some e →
          seed.mesh.dual = .error e ∧ ∀ settings, (seed.build settings).outcome = .error e) ∧
        (oversize? seed.mesh.faceCount seed.mesh.vertexCount = none →
          ∃ d, seed.mesh.dual = .ok d ∧
            ∀ settings, ∃ p, (seed.build settings).outcome = .ok (.ofPair p) ∧
              p.solid.Alike seed.mesh ∧ p.dual.Alike d) := by
  refine ⟨Mesh.census_prism hn, Mesh.census_antiprism hn, Mesh.census_pyramid hn,
    fun seed hseed => ?_⟩
  have hsides : seed.sides? = some n := by
    simp only [List.mem_cons, List.not_mem_nil, or_false] at hseed
    rcases hseed with rfl | rfl | rfl <;> rfl
  have hspherical : seed.mesh.Spherical := by
    refine spherical_mesh fun k hk => ?_
    obtain rfl := Option.some.inj (hsides.symm.trans hk)
    exact hn
  refine ⟨fun e hsize => ?_, fun hsize =>
    exists_built hsides ⟨hspherical, Mesh.oversize?_dual_eq_none.1 hsize⟩⟩
  have hdual := Mesh.dual_eq_error_of_oversize hspherical.toSurface hsize
  exact ⟨hdual, build_eq_error hsides hdual⟩

/-- Over a triangle all sides of the prism touch each other, and the pyramid is a tetrahedron. -/
theorem families_sound_three :
    3 ≤ 3 ∧ (Mesh.prism 3).faceCount = 5 ∧ (Mesh.antiprism 3).edges.length = 12 ∧
      (∃ around, (Mesh.pyramid 3).Encircles 3 around ∧ around.length = 3) ∧
      ∃ p, ((pyramid 3).build default).outcome = .ok (.ofPair p) := by
  obtain ⟨hprism, hantiprism, hpyramid, hbuilt⟩ := families_sound (n := 3) (by decide)
  obtain ⟨d, -, hbuild⟩ := (hbuilt (pyramid 3) (by simp)).2 (by decide)
  obtain ⟨p, hp, -⟩ := hbuild default
  exact ⟨by decide, hprism.faceCount, hantiprism.length_edges,
    hpyramid.exists_around 3 (by decide), p, hp⟩

/-- Over a polygon with so many sides the prism has no dual, and so it is not built. -/
theorem families_outgrow :
    3 ≤ 5000001 ∧ (Mesh.prism 5000001).dual = .error (.tooManyFaces 10000002 maxFaces) ∧
      ∀ settings, ((prism 5000001).build settings).outcome =
        .error (.tooManyFaces 10000002 maxFaces) := by
  have hsize : oversize? (Mesh.prism 5000001).faceCount (Mesh.prism 5000001).vertexCount =
      some (.tooManyFaces 10000002 maxFaces) := by
    rw [Mesh.faceCount_prism, Mesh.vertexCount_prism]
    exact oversize?_of_faces (by decide) (by decide)
  have hsurface := (Mesh.spherical_prism (n := 5000001) (by decide)).toSurface
  have hdual := Mesh.dual_eq_error_of_oversize hsurface hsize
  have hsides : (prism 5000001).sides? = some 5000001 := rfl
  exact ⟨by decide, hdual, build_eq_error hsides hdual⟩

end Seed

end Polyhedra
