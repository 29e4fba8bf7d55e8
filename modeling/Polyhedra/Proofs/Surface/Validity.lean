import Polyhedra.Construction.Platonic
import Polyhedra.Proofs.Surface.Topology

/-!
# The edges of a valid mesh

Validation looks at each face by itself, and then at the set of directed edges of all
faces (`Mesh.validate_eq_ok_iff`).  How many faces run along an edge is not seen in a
set.  On a valid mesh every edge is met by two faces and no more, once in each
direction, if no directed edge comes twice, and not otherwise.

## Main results

* `Mesh.forall_joinsTwo_iff` — when every edge joins two faces.
* `Mesh.valid_iff_edges_run_both_ways` — what validity says of edges.
-/

namespace Polyhedra

namespace Mesh

variable {m : Mesh} {i j v w : Nat}

/-! ## The faces at an edge -/

/-- A simple face does not run back along its own edges. -/
theorem Proper.ne_of_runsAlong (h : m.Proper) (hi : m.RunsAlong i v w) (hj : m.RunsAlong j w v) :
    i ≠ j := by
  rintro rfl
  exact h.ringed.not_back hi hj

/-- One face runs from `v` to `w`, another one from `w` to `v`, and no further face does either. -/
def JoinsTwo (m : Mesh) (v w : Nat) : Prop :=
  ∃ i j, i ≠ j ∧ (∀ k, m.RunsAlong k v w ↔ k = i) ∧ ∀ k, m.RunsAlong k w v ↔ k = j

/-- On a valid mesh all edges join two faces if no directed edge comes twice, and only then. -/
theorem forall_joinsTwo_iff (h : m.Proper) (hpaired : m.EdgesPaired) :
    (∀ v w, (v, w) ∈ m.directedEdges → m.JoinsTwo v w) ↔ m.EdgesOnce := by
  rw [edgesOnce_iff h.simple]
  constructor
  · intro hjoins i j v w hi hj
    obtain ⟨k, -, -, honly, -⟩ := hjoins v w (mem_directedEdges.2 ⟨i, hi⟩)
    rw [(honly i).1 hi, (honly j).1 hj]
  · intro honce v w hvw
    obtain ⟨i, hi⟩ := mem_directedEdges.1 hvw
    obtain ⟨j, hj⟩ := hpaired.exists_runs hi
    refine ⟨i, j, h.ne_of_runsAlong hi hj, fun k => ?_, fun k => ?_⟩
    · exact ⟨fun hk => honce k i v w hk hi, fun hk => hk ▸ hi⟩
    · exact ⟨fun hk => honce k j w v hk hj, fun hk => hk ▸ hj⟩

/--
A mesh is valid if its faces are proper and two different faces run along each of its
edges in opposite directions.  These two are the only faces at their edge just if no
directed edge comes twice.
-/
theorem valid_iff_edges_run_both_ways (m : Mesh) :
    (m.validate = .ok () ↔ m.Proper ∧ ∀ v w, (v, w) ∈ m.directedEdges →
      ∃ i j, i ≠ j ∧ m.RunsAlong i v w ∧ m.RunsAlong j w v) ∧
    (m.validate = .ok () →
      ((∀ v w, (v, w) ∈ m.directedEdges → m.JoinsTwo v w) ↔ m.EdgesOnce)) := by
  rw [validate_eq_ok_iff]
  refine ⟨and_congr_right fun h => ?_, fun ⟨h, hpaired⟩ => forall_joinsTwo_iff h hpaired⟩
  constructor
  · intro hpaired v w hvw
    obtain ⟨i, hi⟩ := mem_directedEdges.1 hvw
    obtain ⟨j, hj⟩ := hpaired.exists_runs hi
    exact ⟨i, j, h.ne_of_runsAlong hi hj, hi, hj⟩
  · rintro hedges ⟨v, w⟩ hvw
    obtain ⟨i, j, -, -, hj⟩ := hedges v w hvw
    exact mem_directedEdges.2 ⟨j, hj⟩

/-- The tetrahedron with its first face twice. -/
def tetrahedronWithFin : Mesh := { tetrahedron with faces := tetrahedron.faces ++ [[0, 1, 2]] }

/-- A mesh can be valid though two of its faces run along an edge in the same direction. -/
theorem validate_tetrahedronWithFin :
    tetrahedronWithFin.validate = .ok () ∧ (0, 1) ∈ tetrahedronWithFin.directedEdges ∧
      ¬ tetrahedronWithFin.JoinsTwo 0 1 := by
  have hsimple : ∀ f ∈ tetrahedronWithFin.faces, f.Nodup ∧ 3 ≤ f.length := by decide
  have hproper : tetrahedronWithFin.Proper :=
    ⟨fun f hf => ⟨(hsimple f hf).1, (hsimple f hf).2⟩, by decide⟩
  have hpaired : tetrahedronWithFin.EdgesPaired := by
    show ∀ e ∈ tetrahedronWithFin.directedEdges, e.swap ∈ tetrahedronWithFin.directedEdges
    decide
  refine ⟨validate_eq_ok_iff.2 ⟨hproper, hpaired⟩, by decide, ?_⟩
  rintro ⟨i, -, -, honly, -⟩
  -- the first face and the last one both run from `0` to `1`
  have hfirst : 0 = i := (honly 0).1 ⟨[0, 1, 2], rfl, by decide⟩
  have hlast : 4 = i := (honly 4).1 ⟨[0, 1, 2], rfl, by decide⟩
  omega

end Mesh

end Polyhedra
