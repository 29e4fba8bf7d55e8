import Polyhedra.Proofs.Construction.Independence
import Polyhedra.Proofs.Surface.Ownership
import Polyhedra.Proofs.Surface.Platonic

/-!
# Relaxation

A pass overwrites the positions of the dual by points that belong to the faces of the solid,
and then those of the solid by points that belong to the faces of the dual.  Each side has as
many vertices as the other one has faces, so that there is a point for every vertex, and the
faces of either side go on naming vertices that exist (`Mesh.InRange.inRange_passes`).

The positions of the dual are overwritten before they are read.  It does not matter then what
they were (`DualPair.passes_congr`): relaxation may be interrupted after any number of passes
and taken up again with a dual that is made afresh, and nothing is lost.

## Main results

* `DualPair.passes_add` — passes add up, with their warnings.
* `DualPair.passes_congr` — passes do not look at the positions of the dual.
* `Mesh.InRange.inRange_dual` — the faces of a dual name existing vertices.
* `Mesh.InRange.relax_composes` — what relaxation changes, and what it makes of passes in a row.
-/

namespace Polyhedra

/-! ## Passes in a row -/

namespace DualPair

variable {rule : Relaxation} {p p' : DualPair}

/-- Passes add up, with their warnings. -/
theorem passes_add (rule : Relaxation) (a b : Nat) (p : DualPair) :
    p.passes rule (a + b) = (((p.passes rule a).1.passes rule b).1,
      (p.passes rule a).2 ++ ((p.passes rule a).1.passes rule b).2) := by
  induction a generalizing p with
  | zero =>
    rw [Nat.zero_add]
    rfl
  | succ a ih =>
    have hrest := ih (p.pass rule).1
    rw [Nat.succ_add]
    simp only [passes, hrest, List.append_assoc]

theorem passes_succ_fst (rule : Relaxation) (n : Nat) (p : DualPair) :
    (p.passes rule (n + 1)).1 = ((p.passes rule n).1.pass rule).1 := by
  rw [passes_add]
  rfl

/-- A pass does not look at the positions of the dual. -/
theorem pass_congr (hsolid : p.solid = p'.solid) (hdual : p.dual.Alike p'.dual) :
    p.pass rule = p'.pass rule := by
  obtain ⟨solid, name, faces, vertices⟩ := p
  obtain ⟨solid', name', faces', vertices'⟩ := p'
  have hname : name = name' := hdual.name
  have hfaces : faces = faces' := hdual.faces
  have hsame : solid = solid' := hsolid
  subst hname hfaces hsame
  rfl

theorem passes_congr (hsolid : p.solid = p'.solid) (hdual : p.dual.Alike p'.dual) {n : Nat}
    (hn : 1 ≤ n) : p.passes rule n = p'.passes rule n := by
  cases n with
  | zero => exact absurd hn (Nat.not_succ_le_zero 0)
  | succ n => simp only [passes, pass_congr hsolid hdual]

end DualPair

namespace Mesh

variable {m m' d : Mesh}

theorem matched_dual (hd : m.dual = .ok d) : DualPair.Matched ⟨m, d⟩ := by
  obtain ⟨-, hfaces, hvertices⟩ := dual_eq_ok hd
  exact ⟨hfaces, hvertices.symm⟩

theorem Alike.inRange (h : m.Alike m') (hrange : m'.InRange) : m.InRange := by
  intro f hf v hv
  rw [h.faces] at hf
  rw [h.vertexCount]
  exact hrange f hf v hv

namespace InRange

variable (h : m.InRange)
include h

/-- The faces of a dual name existing vertices. -/
theorem inRange_dual (hd : m.dual = .ok d) : d.InRange := by
  intro around haround i hi
  obtain ⟨v, -, hwinds, -⟩ := exists_zip_of_forall₂ (exists_face_of_dual h hd).flip haround
  have hface := (hwinds.touches i hi).lt_faceCount
  rw [(dual_eq_ok hd).2.2]
  exact hface

/-- Before each pass the faces of the solid name existing vertices, and so do those of the dual. -/
theorem inRange_passes (rule : Relaxation) (hd : m.dual = .ok d) (n : Nat) :
    (DualPair.passes rule n ⟨m, d⟩).1.solid.InRange ∧
      (DualPair.passes rule n ⟨m, d⟩).1.dual.InRange := by
  obtain ⟨hsolid, hdual⟩ := DualPair.passes_alike rule n (matched_dual hd)
  exact ⟨hsolid.inRange h, hdual.inRange (h.inRange_dual hd)⟩

end InRange

end Mesh

/-! ## Relaxation of a mesh with a position for every corner -/

namespace Relaxation

variable {rule : Relaxation} {count : Nat} {m d : Mesh}

theorem start_eq_ok (h : m.InRange) (count : Nat) (d : Mesh) : start count m d = .ok ⟨m, d⟩ := by
  unfold start
  rw [h.requirePositions_eq_ok]
  exact ite_self _

/-- Relaxation fails as the dual does, and otherwise makes its passes. -/
theorem outcome_relax_eq_map (h : m.InRange) (rule : Relaxation) (count : Nat) :
    (rule.relax count m).outcome = m.dual.map fun d => (DualPair.passes rule count ⟨m, d⟩).1 := by
  rw [outcome_relax]
  cases m.dual with
  | error e => rfl
  | ok d =>
    show (start count m d).map _ = _
    rw [start_eq_ok h]
    rfl

/-- The warnings of relaxation are those of its passes. -/
theorem warnings_relax (h : m.InRange) (hd : m.dual = .ok d) (rule : Relaxation) (count : Nat) :
    (rule.relax count m).warnings = (DualPair.passes rule count ⟨m, d⟩).2 := by
  have hnote : ∀ e, (Run.note e).outcome = .ok () := fun _ => rfl
  have hdual : (Run.ofExcept m.dual).outcome = .ok d := hd
  have hstart : (Run.ofExcept (start count m d)).outcome = .ok ⟨m, d⟩ := start_eq_ok h count d
  have hwarn : ∀ ws, (Run.warn ws).outcome = .ok () := fun _ => rfl
  have hpure : ∀ p : DualPair, (pure p : Run DualPair).warnings = [] := fun _ => rfl
  unfold relax
  rw [Run.warnings_bind_of_ok (hnote _), Run.warnings_bind_of_ok hdual,
    Run.warnings_bind_of_ok (hnote _), Run.warnings_bind_of_ok hstart,
    Run.warnings_bind_of_ok (hwarn _), hpure]
  simp [Event.warning?]

/-- What relaxation yields has the topology of the mesh and of its dual. -/
theorem map_topology_relax (h : m.InRange) (rule : Relaxation) (count : Nat) :
    (rule.relax count m).outcome.map DualPair.topology =
      m.dual.map fun d => (m.topology, d.topology) := by
  rw [outcome_relax_eq_map h]
  cases hd : m.dual with
  | error e => rfl
  | ok d =>
    have halike := DualPair.passes_alike rule count (Mesh.matched_dual hd)
    have htopology : DualPair.topology _ = DualPair.topology ⟨m, d⟩ :=
      DualPair.topology_eq_iff.2 halike
    exact congrArg Except.ok htopology

/-- Relaxation does not ask for a position that is not there. -/
theorem outcome_relax_ne_danglingVertex (h : m.InRange) (rule : Relaxation) (count v : Nat) :
    (rule.relax count m).outcome ≠ .error (.danglingVertex v) := by
  intro herror
  rw [outcome_relax_eq_map h, Except.map_eq_error] at herror
  have hcause := Mesh.dual_eq_error h herror
  simp at hcause

/-- Passes may be interrupted, and taken up again with a new dual. -/
theorem relax_add (h : m.InRange) (hd : m.dual = .ok d) (rule : Relaxation) (a : Nat) {b : Nat}
    (hb : 1 ≤ b) : ∃ q r, (rule.relax a m).outcome = .ok q ∧
      (rule.relax b q.solid).outcome = .ok r ∧ (rule.relax (a + b) m).outcome = .ok r ∧
      (rule.relax (a + b) m).warnings =
        (rule.relax a m).warnings ++ (rule.relax b q.solid).warnings := by
  let q := (DualPair.passes rule a ⟨m, d⟩).1
  have halike : q.solid.Alike m ∧ q.dual.Alike d :=
    DualPair.passes_alike rule a (Mesh.matched_dual hd)
  have hrange : q.solid.InRange := (h.inRange_passes rule hd a).1
  -- the new dual is the old one, with its positions left open again
  have hnew : q.solid.dual = .ok d := halike.1.dual.trans hd
  have hsolid : (⟨q.solid, d⟩ : DualPair).solid = q.solid := rfl
  have hpasses : DualPair.passes rule b ⟨q.solid, d⟩ = q.passes rule b :=
    DualPair.passes_congr hsolid halike.2.symm hb
  have hsum := DualPair.passes_add rule a b ⟨m, d⟩
  refine ⟨q, (q.passes rule b).1, ?_, ?_, ?_, ?_⟩
  · rw [outcome_relax_eq_map h, hd]
    rfl
  · rw [outcome_relax_eq_map hrange, hnew, ← hpasses]
    rfl
  · have hfst : (DualPair.passes rule (a + b) ⟨m, d⟩).1 = (q.passes rule b).1 := by rw [hsum]
    rw [outcome_relax_eq_map h, hd, ← hfst]
    rfl
  · rw [warnings_relax h hd, warnings_relax h hd, warnings_relax hrange hnew, hpasses, hsum]

end Relaxation

namespace Mesh

/--
The relaxation of a mesh whose faces name existing vertices moves points only.  It fails as
the making of the dual does; otherwise names, faces and numbers of vertices are those of the
mesh and of its dual as it was made.  All of this comes from the name, the faces and the number
of vertices of the mesh, whatever the rule and the number of passes, and each side has one
vertex for each face of the other.  No pass asks for a position that is not there: neither when
it reads the solid, nor when it reads the dual that it has just moved.

If relaxation succeeds, any number of passes followed by one or more, with a new dual, yield the
same solid, the same dual and the same warnings as all of them at once.
-/
theorem InRange.relax_composes {m : Mesh} (h : m.InRange) (rule : Relaxation) :
    (∀ count, (rule.relax count m).outcome.map DualPair.topology =
      m.dual.map fun d => (m.topology, d.topology)) ∧
    (∀ (m' : Mesh) (rule' : Relaxation) (count count' : Nat), m'.topology = m.topology →
      (rule'.relax count' m').outcome.map DualPair.topology =
        (rule.relax count m).outcome.map DualPair.topology) ∧
    (∀ count p, (rule.relax count m).outcome = .ok p →
      p.dual.vertexCount = p.solid.faceCount ∧ p.solid.vertexCount = p.dual.faceCount) ∧
    (∀ d, m.dual = .ok d → ∀ count,
      (DualPair.passes rule count ⟨m, d⟩).1.solid.InRange ∧
      ((DualPair.passes rule count ⟨m, d⟩).1.pass rule).1.dual.InRange) ∧
    (∀ count v, (rule.relax count m).outcome ≠ .error (.danglingVertex v)) ∧
    ∀ count p, (rule.relax count m).outcome = .ok p → ∀ a b, 1 ≤ b → ∃ q r,
      (rule.relax a m).outcome = .ok q ∧ (rule.relax b q.solid).outcome = .ok r ∧
      (rule.relax (a + b) m).outcome = .ok r ∧
      (rule.relax (a + b) m).warnings =
        (rule.relax a m).warnings ++ (rule.relax b q.solid).warnings := by
  refine ⟨Relaxation.map_topology_relax h rule, ?_, ?_, ?_,
    Relaxation.outcome_relax_ne_danglingVertex h rule, ?_⟩
  · intro m' rule' count count' htopology
    have halike := topology_eq_iff.1 htopology
    rw [Relaxation.map_topology_relax (halike.inRange h), Relaxation.map_topology_relax h,
      halike.dual, htopology]
  · intro count p hp
    obtain ⟨d, hd, hsolid, hdual⟩ := Relaxation.exists_dual hp
    have hmatched := matched_dual hd
    refine ⟨?_, ?_⟩
    · rw [hdual.vertexCount, hsolid.faceCount]
      exact hmatched.solid.symm
    · rw [hsolid.vertexCount, hdual.faceCount]
      exact hmatched.dual.symm
  · intro d hd count
    have hafter := (h.inRange_passes rule hd (count + 1)).2
    rw [DualPair.passes_succ_fst] at hafter
    exact ⟨(h.inRange_passes rule hd count).1, hafter⟩
  · intro count p hp a b hb
    obtain ⟨d, hd, -⟩ := Relaxation.exists_dual hp
    exact Relaxation.relax_add h hd rule a hb

/-- The cube is relaxed in two passes and three more, or in five. -/
theorem InRange.relax_composes_cube :
    cube.InRange ∧
      (∃ p, (Relaxation.canonical.relax 1 cube).outcome = .ok p ∧ p.dual.vertexCount =
        p.solid.faceCount) ∧
      ∃ q r, (Relaxation.canonical.relax 2 cube).outcome = .ok q ∧
        (Relaxation.canonical.relax 3 q.solid).outcome = .ok r ∧
        (Relaxation.canonical.relax 5 cube).outcome = .ok r := by
  have hrange : cube.InRange := by decide
  obtain ⟨d, hd, -⟩ := spherical_cube.exists_dual withinLimits_cube
  obtain ⟨p, hp⟩ :=
    Relaxation.exists_relaxed .canonical 1 hd hrange.danglingVertex?_eq_none
  obtain ⟨-, -, hcounts, -, -, hcomposes⟩ := InRange.relax_composes hrange .canonical
  obtain ⟨q, r, hq, hr, hall, -⟩ := hcomposes 1 p hp 2 3 (by decide)
  exact ⟨hrange, ⟨p, hp, (hcounts 1 p hp).1⟩, q, r, hq, hr, hall⟩

end Mesh

end Polyhedra
