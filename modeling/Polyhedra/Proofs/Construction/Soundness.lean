import Mathlib.Algebra.Order.BigOperators.Group.List
import Mathlib.Algebra.Order.Group.Nat
import Polyhedra.Proofs.Construction.Outcome
import Polyhedra.Proofs.Surface.Ambo
import Polyhedra.Proofs.Surface.Dual
import Polyhedra.Proofs.Surface.Families
import Polyhedra.Proofs.Surface.Gyro
import Polyhedra.Proofs.Surface.Involution
import Polyhedra.Proofs.Surface.Platonic
import Polyhedra.Proofs.Surface.Propellor
import Polyhedra.Proofs.Surface.Pyramids

/-!
# Constructions succeed

Every seed and every operation other than the dual yields a spherical polyhedron,
with a dual that is one too, and fails on none, unless the outcome would be too large
(`Operation.sizeFault?`).  Reflection runs all faces backwards, which turns the stars
of the vertices around; relaxation moves positions only.

## Main results

* `Relaxation.exists_sound` — relaxation keeps a spherical polyhedron and provides its
  dual.
* `Operation.apply_sound` — an operation makes a spherical polyhedron of one, or says
  what there would be too many of.
* `Seed.exists_sound` — the seeds that a notation can name are built.
-/

namespace Polyhedra

/-! ## Running faces backwards -/

namespace Net

variable {V F : Type} {N : Net V F} {f : F} {v : V}

/-- All faces run the other way. -/
def opposite (N : Net V F) : Net V F where
  IsVertex := N.IsVertex
  Runs f v w := N.Runs f w v

theorem Surface.touches_opposite_iff (h : N.Surface) :
    N.opposite.Touches f v ↔ N.Touches f v := by
  constructor
  · rintro ⟨w, hr⟩
    exact h.touches_right hr
  · rintro ⟨w, hr⟩
    obtain ⟨u, hc⟩ := h.exists_enters hr
    exact ⟨u, hc.enters⟩

/-- Running all faces backwards keeps closed surfaces. -/
theorem Surface.opposite (h : N.Surface) : N.opposite.Surface where
  isVertex f v w hr := h.isVertex_right hr
  exists_ring f v w hr := by
    obtain ⟨ring, hring⟩ := h.exists_ring f w v hr
    refine ⟨ring.reverse, List.nodup_reverse.2 hring.nodup, ?_, fun x y => ?_⟩
    · rw [List.length_reverse]
      exact hring.three_le
    · rw [mem_cycleEdges_reverse]
      exact hring.runs_iff y x
  once f g v w hf hg := h.once f g w v hf hg
  paired f v w hr := h.paired f w v hr
  exists_star v hv := by
    obtain ⟨around, hstar⟩ := h.exists_star v hv
    refine ⟨around.reverse, List.nodup_reverse.2 hstar.nodup, ?_, fun f => ?_, fun f g hfg => ?_⟩
    · rw [List.length_reverse]
      exact hstar.three_le
    · rw [List.mem_reverse, hstar.mem_iff, h.touches_opposite_iff]
    · obtain ⟨w, hg, hf⟩ := hstar.across g f (mem_cycleEdges_reverse.1 hfg)
      exact ⟨w, hf, hg⟩

/-- Running all faces backwards keeps the surfaces of polyhedra. -/
theorem Polyhedral.opposite (h : N.Polyhedral) : N.opposite.Polyhedral where
  toSurface := h.toSurface.opposite
  meet f g u v hfg huv hfu hgu hfv hgv := by
    rw [h.touches_opposite_iff] at hfu hgu hfv hgv
    exact (h.meet f g u v hfg huv hfu hgu hfv hgv).symm

end Net

namespace Mesh

variable {m m' : Mesh}

theorem net_inverted (m : Mesh) : m.inverted.net = m.net.opposite := by
  ext
  · show _ < (m.vertices.map _).size ↔ _
    rw [Array.size_map]
    rfl
  · next i v w =>
    show (∃ f : Face, (m.faces.map List.reverse)[i]? = some f ∧ (v, w) ∈ f.edges) ↔ _
    rw [List.getElem?_map]
    constructor
    · rintro ⟨_, hreversed, he⟩
      obtain ⟨f, hf, rfl⟩ := Option.map_eq_some_iff.1 hreversed
      exact ⟨f, hf, mem_cycleEdges_reverse.1 he⟩
    · rintro ⟨f, hf, he⟩
      exact ⟨f.reverse, by rw [hf, Option.map_some], mem_cycleEdges_reverse.2 he⟩

theorem vertexCount_inverted (m : Mesh) : m.inverted.vertexCount = m.vertexCount :=
  Array.size_map ..

theorem faceCount_inverted (m : Mesh) : m.inverted.faceCount = m.faceCount := List.length_map _

/-- The image under reflection in the centre is a polyhedron again. -/
theorem Polyhedral.inverted (h : m.Polyhedral) : m.inverted.Polyhedral := by
  obtain ⟨hsimple, hnet⟩ := polyhedral_iff.1 h
  refine polyhedral_iff.2 ⟨fun f hf => ?_, net_inverted m ▸ hnet.opposite⟩
  obtain ⟨g, hg, rfl⟩ := List.mem_map.1 hf
  have hsimple := hsimple g hg
  exact ⟨List.nodup_reverse.2 hsimple.nodup, by simpa using hsimple.three_le⟩

theorem length_directedEdges_inverted (m : Mesh) :
    m.inverted.directedEdges.length = m.directedEdges.length := by
  rw [length_directedEdges, length_directedEdges]
  simp [Mesh.inverted, Function.comp_def]

/-- The image of a spherical polyhedron is spherical again. -/
theorem Spherical.inverted (h : m.Spherical) : m.inverted.Spherical where
  toPolyhedral := h.toPolyhedral.inverted
  euler := by
    rw [length_directedEdges_inverted, vertexCount_inverted, faceCount_inverted]
    exact h.euler

/-- Only faces and the number of vertices matter. -/
theorem net_eq_of_faces (hfaces : m'.faces = m.faces) (hcount : m'.vertexCount = m.vertexCount) :
    m'.net = m.net := by
  ext
  · show _ < m'.vertexCount ↔ _
    rw [hcount]
    rfl
  · show (∃ f, m'.faces[_]? = some f ∧ _) ↔ _
    rw [hfaces]
    rfl

theorem Spherical.of_faces (h : m.Spherical) (hfaces : m'.faces = m.faces)
    (hcount : m'.vertexCount = m.vertexCount) : m'.Spherical := by
  have hnet := net_eq_of_faces hfaces hcount
  obtain ⟨hsimple, hpoly⟩ := polyhedral_iff.1 h.toPolyhedral
  refine ⟨polyhedral_iff.2 ⟨hfaces ▸ hsimple, hnet ▸ hpoly⟩, ?_⟩
  rw [hcount, faceCount, directedEdges, hfaces]
  exact h.euler

end Mesh

/-! ## Sound solids -/

/-- A spherical polyhedron that is not too large. -/
structure Mesh.Sound (m : Mesh) : Prop extends m.Spherical where
  withinLimits : m.WithinLimits

namespace Mesh.Sound

variable {m m' : Mesh}

theorem of_faces (h : m.Sound) (hfaces : m'.faces = m.faces)
    (hcount : m'.vertexCount = m.vertexCount) : m'.Sound where
  toSpherical := h.toSpherical.of_faces hfaces hcount
  withinLimits := by
    rw [WithinLimits, hcount, faceCount, hfaces]
    exact h.withinLimits

theorem inverted (h : m.Sound) : m.inverted.Sound where
  toSpherical := h.toSpherical.inverted
  withinLimits := by
    rw [WithinLimits, vertexCount_inverted, faceCount_inverted]
    exact h.withinLimits

theorem dual (h : m.Sound) (hd : m.dual = .ok m') : m'.Sound :=
  ⟨h.toSpherical.of_dual hd, h.withinLimits.dual hd⟩

theorem exists_dual (h : m.Sound) : ∃ d, m.dual = .ok d ∧ d.Sound := by
  obtain ⟨d, hd, -⟩ := h.toPolyhedral.exists_dual h.withinLimits
  exact ⟨d, hd, h.dual hd⟩

end Mesh.Sound

/-! ## Sound pairs -/

/-- The sides are sound, and the net of one is the dual of that of the other. -/
structure DualPair.Sound (p : DualPair) : Prop where
  solid : p.solid.Sound
  dual : p.dual.Sound
  net : p.dual.net = p.solid.net.dual

namespace DualPair.Sound

variable {p : DualPair} (h : p.Sound)
include h

/-- A sound pair may be seen from either side. -/
theorem swap : p.swap.Sound where
  solid := h.dual
  dual := h.solid
  net := by
    show p.solid.net = p.dual.net.dual
    rw [h.net, (Mesh.polyhedral_iff.1 h.solid.toPolyhedral).2.dual_dual]

theorem vertexCount_dual : p.dual.vertexCount = p.solid.faceCount := by
  have hvertex : ∀ i, i < p.dual.vertexCount ↔ i < p.solid.faceCount := by
    intro i
    rw [← Mesh.isVertex_dual_iff h.solid.toSurface, ← h.net]
    rfl
  have hle := hvertex p.dual.vertexCount
  have hge := hvertex p.solid.faceCount
  omega

theorem faceCount_dual : p.dual.faceCount = p.solid.vertexCount := h.swap.vertexCount_dual.symm

end DualPair.Sound

/-- The solid is sound, and so is the pair of it and its dual if it has one. -/
structure Solid.Sound (s : Solid) : Prop where
  mesh : s.mesh.Sound
  pair : ∀ p, s.pair? = some p → p.Sound

theorem DualPair.Sound.ofPair {p : DualPair} (h : p.Sound) : (Solid.ofPair p).Sound where
  mesh := h.solid
  pair _ hp := Option.some.inj hp ▸ h

/-- Relaxation provides the dual, and leaves the numbers of vertices and faces as they are. -/
theorem Relaxation.exists_sound (rule : Relaxation) (count : Nat) {m : Mesh} (h : m.Sound) :
    ∃ p, (rule.relax count m).outcome = .ok p ∧ p.Sound ∧
      p.solid.vertexCount = m.vertexCount ∧ p.solid.faceCount = m.faceCount := by
  obtain ⟨d, hd, hdual⟩ := h.exists_dual
  obtain ⟨p, hp⟩ := exists_relaxed rule count hd h.inRange.danglingVertex?_eq_none
  obtain ⟨_, hd', hsolid, hdual'⟩ := Relaxation.exists_dual hp
  obtain rfl := Except.ok.inj (hd.symm.trans hd')
  refine ⟨p, hp, ⟨h.of_faces hsolid.faces hsolid.vertexCount,
    hdual.of_faces hdual'.faces hdual'.vertexCount, ?_⟩, hsolid.vertexCount,
    congrArg List.length hsolid.faces⟩
  rw [Mesh.net_eq_of_faces hdual'.faces hdual'.vertexCount,
    Mesh.net_eq_of_faces hsolid.faces hsolid.vertexCount, (h.toPolyhedral.of_dual hd).2]

/-! ## Operations -/

/-- There are more vertices or faces than allowed, and that is the fault. -/
def MeshError.OfSize (e : MeshError) : Prop :=
  ∃ count, (maxVertices < count ∧ e = .tooManyVertices count maxVertices) ∨
    (maxFaces < count ∧ e = .tooManyFaces count maxFaces)

namespace Operation

variable {m : Mesh}

/-- The numbers of vertices and faces that an operation leads to on a closed surface. -/
def size : Operation → Mesh → Nat × Nat
  | kis sides, m => (m.vertexCount + (m.selectedFaces sides).length, m.kisFaceCount sides)
  | ambo, m => (m.edges.length, m.faceCount + m.vertexCount)
  | gyro, m => (m.vertexCount + m.faceCount + 2 * m.edges.length, 2 * m.edges.length)
  | propellor, m => (m.vertexCount + 2 * m.edges.length, m.faceCount + 2 * m.edges.length)
  | dual, m => (m.faceCount, m.vertexCount)
  | reflect, m | canonicalize, m => (m.vertexCount, m.faceCount)

/-- What an operation would make too many of, if anything. -/
def sizeFault? (op : Operation) (m : Mesh) : Option MeshError :=
  oversize? (op.size m).1 (op.size m).2

theorem ofSize_of_sizeFault? {op : Operation} {e : MeshError} (h : op.sizeFault? m = some e) :
    e.OfSize :=
  (oversize?_eq_some h).elim (fun hvertices => ⟨_, .inl hvertices⟩) fun hfaces => ⟨_, .inr hfaces⟩

/-- What is built by a design has the size of the design, or is refused for it. -/
theorem build_sound {text : Text} {design : Design} {size : Nat × Nat} (h : design.Spherical)
    (hlabels : design.labels.length = size.1) (hfaces : design.faceLabels.length = size.2) :
    (∀ e, oversize? size.1 size.2 = some e → m.build text design = .error e) ∧
      (oversize? size.1 size.2 = none → ∃ m', m.build text design = .ok m' ∧ m'.Sound ∧
        (m'.vertexCount, m'.faceCount) = size) := by
  rw [← hlabels, ← hfaces, ← Blueprint.sizeFault?_eq]
  refine ⟨fun e hsize => Mesh.build_eq_error hsize, fun hsize => ?_⟩
  obtain ⟨m', hm', hspherical, hlimits, hvertices, hcount⟩ :=
    h.exists_assembled hsize (text ++ m.name)
  exact ⟨m', hm', ⟨hspherical, hlimits⟩,
    Prod.ext (hvertices.trans hlabels) (hcount.trans hfaces)⟩

/-- An operation other than the dual makes a sound solid of one, if its size is allowed. -/
theorem transform_sound {op : Operation} (hop : op ≠ .dual) (h : m.Sound) :
    (∀ e, op.sizeFault? m = some e → op.transform m = .error e) ∧
      (op.sizeFault? m = none → ∃ m', op.transform m = .ok m' ∧ m'.Sound ∧
        (m'.vertexCount, m'.faceCount) = op.size m) := by
  have hedges := h.toSurface.two_mul_length_edges
  have kept : ∀ e, oversize? m.vertexCount m.faceCount ≠ some e := fun e => by
    simp [Mesh.withinLimits_iff.1 h.withinLimits]
  cases op with
  | dual => exact absurd rfl hop
  | kis sides =>
    rw [transform, h.inRange.requirePositions_eq_ok]
    exact build_sound (h.kisDesign sides) Mesh.length_labels_kis
      (h.toProper.length_faceLabels_kis sides)
  | ambo =>
    rw [transform, h.danglingUpwards?_eq_none]
    exact build_sound h.amboDesign (Mesh.length_labels_ambo h.toSurface)
      (Mesh.length_faceLabels_ambo h.toSurface)
  | gyro =>
    rw [transform, h.inRange.requirePositions_eq_ok]
    exact build_sound h.gyroDesign
      (by rw [Mesh.length_labels_gyro h.toSurface, size, hedges])
      (by rw [Mesh.length_faceLabels_gyro h.toSurface, size, hedges])
  | propellor =>
    rw [transform, h.inRange.requirePositions_eq_ok]
    exact build_sound h.propellorDesign
      (by rw [Mesh.length_labels_propellor h.toSurface, size, hedges])
      (by rw [Mesh.length_faceLabels_propellor h.toSurface, size, hedges])
  | reflect =>
    refine ⟨fun e he => absurd he (kept e), fun _ => ⟨_, rfl, h.inverted.of_faces rfl rfl, ?_⟩⟩
    exact Prod.ext m.vertexCount_inverted m.faceCount_inverted
  | canonicalize =>
    exact ⟨fun e he => absurd he (kept e), fun _ => ⟨_, rfl, h.of_faces rfl rfl, rfl⟩⟩

/-- An operation other than the dual fails on a sound solid only if it would grow too large. -/
theorem apply_sound (settings : Settings) {op : Operation} (hop : op ≠ .dual) (h : m.Sound) :
    (∀ e, op.sizeFault? m = some e → (op.apply settings m).outcome = .error e) ∧
      (op.sizeFault? m = none → ∃ p, (op.apply settings m).outcome = .ok p ∧ p.Sound ∧
        (p.solid.vertexCount, p.solid.faceCount) = op.size m) := by
  obtain ⟨hfails, hsucceeds⟩ := transform_sound hop h
  refine ⟨fun e hsize => ?_, fun hsize => ?_⟩
  · rw [outcome_apply, hfails e hsize]
    rfl
  · obtain ⟨m', hm', hsound, hcounts⟩ := hsucceeds hsize
    obtain ⟨p, hp, hpair, hvertices, hfaces⟩ :=
      Relaxation.exists_sound (op.relaxation settings).1 (op.relaxation settings).2 hsound
    refine ⟨p, ?_, hpair, hcounts ▸ Prod.ext hvertices hfaces⟩
    rw [outcome_apply, hm']
    exact hp

/-! ### Growth -/

/-- By how much an operation multiplies the edges at most. -/
def growth : Operation → Nat
  | kis _ => 3
  | ambo => 2
  | gyro | propellor => 5
  | dual | reflect | canonicalize => 1

theorem growth_pos (op : Operation) : 0 < op.growth := by
  cases op <;> simp [growth]

theorem kisFaceCount_le (h : m.Proper) (sides : Option Nat) :
    m.kisFaceCount sides ≤ m.directedEdges.length := by
  rw [Mesh.kisFaceCount_eq_sum, Mesh.length_directedEdges]
  refine List.sum_le_sum fun f hf => ?_
  have hthree := (h.simple f hf).three_le
  split <;> omega

/-- No operation leads to more vertices and faces than it multiplies the edges. -/
theorem size_le (h : m.Spherical) (op : Operation) :
    (op.size m).1 + (op.size m).2 ≤ op.growth * m.edgeCount + 2 := by
  have heuler := h.euler_formula
  have hedges := h.toSurface.two_mul_length_edges
  rw [← h.length_edges]
  cases op with
  | kis sides =>
    have hselected : (m.selectedFaces sides).length ≤ m.faceCount := List.length_filter_le _ _
    have hfaces := kisFaceCount_le h.toProper sides
    simp only [size, growth]
    omega
  | _ =>
    simp only [size, growth]
    omega

/-- Gyro makes five edges of each, which join three vertices and two faces to each. -/
theorem size_gyro (h : m.Spherical) :
    Operation.gyro.size m = (3 * m.edgeCount + 2, 2 * m.edgeCount) := by
  have heuler := h.euler_formula
  rw [← h.length_edges, size]
  exact Prod.ext (by simp only; omega) rfl

/-- An operation that does not multiply the edges by too much makes nothing too large. -/
theorem sizeFault?_eq_none_of_le (h : m.Spherical) {op : Operation} {edges : Nat}
    (hedges : m.edgeCount ≤ edges) (hsmall : edges * op.growth + 2 ≤ min maxVertices maxFaces) :
    op.sizeFault? m = none := by
  have hsize := size_le h op
  have hgrown : op.growth * m.edgeCount ≤ edges * op.growth := by
    rw [Nat.mul_comm edges]
    exact Nat.mul_le_mul_left _ hedges
  obtain ⟨hvertices, hfaces⟩ := Nat.le_min.1 hsmall
  exact oversize?_eq_none.2 ⟨by omega, by omega⟩

end Operation

/-! ## Seeds -/

namespace Seed

variable {seed : Seed}

theorem spherical_mesh (hsides : ∀ n, seed.sides? = some n → minSeedSides ≤ n) :
    seed.mesh.Spherical := by
  cases seed with
  | tetrahedron => exact Mesh.spherical_tetrahedron
  | octahedron => exact Mesh.spherical_octahedron
  | cube => exact Mesh.spherical_cube
  | icosahedron => exact Mesh.spherical_icosahedron
  | dodecahedron => exact Mesh.spherical_dodecahedron
  | prism n => exact Mesh.spherical_prism (hsides n rfl)
  | antiprism n => exact Mesh.spherical_antiprism (hsides n rfl)
  | pyramid n => exact Mesh.spherical_pyramid (hsides n rfl)

/-- Seeds that a notation can name are not too large. -/
theorem withinLimits_mesh (hsides : ∀ n, seed.sides? = some n → n ≤ maxSeedSides) :
    seed.mesh.WithinLimits := by
  have small : ∀ {n k : Nat}, n ≤ maxSeedSides → k ≤ 2 * n + 2 → k ≤ maxVertices := by
    intro n k hn hk
    have hlimits : 2 * maxSeedSides + 2 ≤ maxVertices := by decide
    omega
  cases seed with
  | prism n =>
    have hn := hsides n rfl
    refine ⟨small hn ?_, small hn ?_⟩
    · rw [mesh, Mesh.vertexCount_prism]
      omega
    · rw [mesh, Mesh.faceCount_prism]
      omega
  | antiprism n =>
    have hn := hsides n rfl
    refine ⟨small hn ?_, small hn ?_⟩
    · rw [mesh, Mesh.vertexCount_antiprism]
      omega
    · exact (Mesh.faceCount_antiprism n).le
  | pyramid n =>
    have hn := hsides n rfl
    refine ⟨small hn ?_, small hn ?_⟩
    · rw [mesh, Mesh.vertexCount_pyramid]
      omega
    · rw [mesh, Mesh.faceCount_pyramid]
      omega
  | _ => exact ⟨by decide, by decide⟩

/-- Only Platonic solids are not relaxed. -/
theorem mem_fixedSeeds_of_relaxation? {settings : Settings}
    (h : seed.relaxation? settings = none) : seed.symbol ∈ Alphabet.fixedSeeds := by
  cases seed with
  | prism n => simp [relaxation?] at h
  | antiprism n => simp [relaxation?] at h
  | pyramid n => simp [relaxation?] at h
  | _ => decide

/-- The seeds that a notation can name are built, and only the Platonic solids without a dual. -/
theorem exists_sound (settings : Settings)
    (hsides : ∀ n, seed.sides? = some n → minSeedSides ≤ n ∧ n ≤ maxSeedSides) :
    ∃ s, (seed.build settings).outcome = .ok s ∧ s.Sound ∧
      (s.mesh.vertexCount, s.mesh.faceCount) = (seed.mesh.vertexCount, seed.mesh.faceCount) ∧
      (s.dual = none → seed.symbol ∈ Alphabet.fixedSeeds) := by
  have hmesh : seed.mesh.Sound :=
    ⟨spherical_mesh fun n hn => (hsides n hn).1, withinLimits_mesh fun n hn => (hsides n hn).2⟩
  rw [outcome_build]
  cases hrelaxation : seed.relaxation? settings with
  | none =>
    have hfixed := mem_fixedSeeds_of_relaxation? hrelaxation
    exact ⟨_, rfl, ⟨hmesh, fun p hp => by simp [Solid.pair?] at hp⟩, rfl, fun _ => hfixed⟩
  | some relaxation =>
    obtain ⟨p, hp, hpair, hvertices, hfaces⟩ := relaxation.1.exists_sound relaxation.2 hmesh
    refine ⟨Solid.ofPair p, ?_, hpair.ofPair, Prod.ext hvertices hfaces,
      fun hnone => by simp [Solid.ofPair] at hnone⟩
    simp only [hp]
    rfl

end Seed

end Polyhedra
