import Polyhedra.Construction.Platonic
import Polyhedra.Proofs.Surface.Topology

/-!
# Platonic solids are polyhedra

The tables of the Platonic solids are checked by computation.  `Mesh.wheelAt`
turns about a vertex from face to face, and `Mesh.Checked` says that what it finds
is the wheel of the vertex, along with the other things that make a spherical
polyhedron.

## Main results

* `Mesh.Checked.spherical` — a mesh that stands the check is a spherical
  polyhedron.
* `Mesh.spherical_tetrahedron` and its companions — the five tables do.
-/

namespace Polyhedra

namespace Mesh

/-! ## Turning about a vertex -/

/-- The faces that leave `v`, from the given one on, each where the one before it comes from. -/
def wheelFrom (edges : List ((Nat × Nat) × Nat)) (v : Nat) : Nat → Nat × Nat → List (Nat × Nat)
  | 0, _ => []
  | n + 1, spoke =>
    spoke :: match edges.find? fun e => e.2 == spoke.1 && e.1.2 == v with
      | none => []
      | some ((u, _), _) =>
        match edges.find? fun e => e.1 == (v, u) with
        | none => []
        | some (_, i) => wheelFrom edges v n (i, u)

/-- All faces that leave `v`, in the order in which they follow one another. -/
def wheelAt (m : Mesh) (v : Nat) : List (Nat × Nat) :=
  let edges := edgesWithFace m.faces
  let leaving := edges.filter fun e => e.1.1 == v
  match leaving with
  | [] => []
  | ((_, w), i) :: _ => wheelFrom edges v leaving.length (i, w)

/-! ## The check -/

instance (m : Mesh) (i v w : Nat) : Decidable (m.RunsAlong i v w) :=
  decidable_of_iff (∃ f ∈ m.faces[i]?, (v, w) ∈ f.edges) Iff.rfl

/-- What turning about `v` has found is a wheel. -/
def ChecksWheel (m : Mesh) (v : Nat) : Prop :=
  let wheel := m.wheelAt v
  (wheel.map Prod.fst).Nodup ∧ (wheel.map Prod.snd).Nodup ∧ 3 ≤ wheel.length ∧
    (∀ e ∈ edgesWithFace m.faces, e.1.1 = v → (e.2, e.1.2) ∈ wheel) ∧
      (∀ x ∈ wheel, m.RunsAlong x.1 v x.2) ∧ ∀ p ∈ cycleEdges wheel, m.RunsAlong p.1.1 p.2.2 v

instance (m : Mesh) (v : Nat) : Decidable (m.ChecksWheel v) :=
  inferInstanceAs (Decidable (_ ∧ _ ∧ _ ∧ _ ∧ _ ∧ _))

/-- Two vertices that two faces share are neighbours. -/
def ChecksMeeting (m : Mesh) : Prop :=
  ∀ x ∈ m.faces.zipIdx, ∀ y ∈ m.faces.zipIdx, x.2 ≠ y.2 →
    ∀ u ∈ x.1, ∀ v ∈ x.1, u ∈ y.1 ∧ v ∈ y.1 ∧ u ≠ v → (u, v) ∈ x.1.edges ∨ (v, u) ∈ x.1.edges

instance (m : Mesh) : Decidable m.ChecksMeeting :=
  inferInstanceAs (Decidable (∀ x ∈ m.faces.zipIdx, ∀ y ∈ m.faces.zipIdx, _))

/-- A mesh stands the check for spherical polyhedra. -/
def Checked (m : Mesh) : Prop :=
  (∀ f ∈ m.faces, f.Nodup ∧ 3 ≤ f.length) ∧ (∀ e ∈ m.directedEdges, e.1 < m.vertexCount) ∧
    (∀ v < m.vertexCount, m.ChecksWheel v) ∧ m.ChecksMeeting ∧
      2 * (m.vertexCount + m.faceCount) = m.directedEdges.length + 4

instance (m : Mesh) : Decidable m.Checked := inferInstanceAs (Decidable (_ ∧ _ ∧ _ ∧ _ ∧ _))

variable {m : Mesh} {v : Nat}

theorem ChecksWheel.wheel (h : m.ChecksWheel v) : m.net.Wheel v (m.wheelAt v) := by
  obtain ⟨hfaces, hspokes, hthree, hcomplete, hsound, hacross⟩ := h
  refine ⟨hfaces, hspokes, hthree, fun i w => ⟨fun hr => ?_, fun hmem => ?_⟩, fun x y hxy => ?_⟩
  · exact hcomplete _ (mem_edgesWithFace.2 hr) rfl
  · exact hsound _ hmem
  · exact hacross _ hxy

theorem Checked.spherical (h : m.Checked) : m.Spherical := by
  obtain ⟨hsimple, hrange, hwheels, hmeeting, heuler⟩ := h
  refine .of_wheels (fun f hf => ⟨(hsimple f hf).1, (hsimple f hf).2⟩) (fun i v w hr => ?_)
    (fun v hv => ⟨_, (hwheels v hv).wheel⟩)
    (fun i j f g hf hg hij u v huv hu hu' hv hv' => ?_) heuler
  · exact hrange _ (mem_directedEdges.2 ⟨i, hr⟩)
  · exact hmeeting (f, i) (List.mem_zipIdx_iff_getElem?.2 hf) (g, j)
      (List.mem_zipIdx_iff_getElem?.2 hg) hij u hu v hv ⟨hu', hv', huv⟩

/-! ## The tables -/

theorem spherical_tetrahedron : tetrahedron.Spherical := Checked.spherical (by decide +kernel)

theorem spherical_octahedron : octahedron.Spherical := Checked.spherical (by decide +kernel)

theorem spherical_cube : cube.Spherical := Checked.spherical (by decide +kernel)

theorem spherical_icosahedron : icosahedron.Spherical := Checked.spherical (by decide +kernel)

theorem spherical_dodecahedron : dodecahedron.Spherical := Checked.spherical (by decide +kernel)

theorem withinLimits_cube : cube.WithinLimits := ⟨by decide, by decide⟩

theorem length_edges_cube : cube.edges.length = 12 := by
  have hformula := spherical_cube.euler_formula
  have hvertices : cube.vertexCount = 8 := rfl
  have hfaces : cube.faceCount = 6 := rfl
  omega

end Mesh

end Polyhedra
