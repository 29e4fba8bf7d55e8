import Polyhedra.Proofs.Construction.Soundness
import Polyhedra.Proofs.Surface.Involution
import Mathlib.Data.Set.Function
import Mathlib.Order.Interval.Set.Defs

/-!
# Isomorphism

Two meshes are isomorphic as oriented surfaces if the vertices of one can be
numbered as those of the other, so that its faces become the faces of the other
one, each as the same cycle; where a cycle begins does not matter, but its
direction does (`Mesh.Isomorphic`).

For closed surfaces this is to say that the nets are the same up to renaming,
which is what can be shown of the designs that the meshes are built from
(`Mesh.exists_built`).

## Main results

* `Net.Ring.isRotated` — a face has one ring, but for where it begins.
* `Net.Isomorphic.symm`, `Net.Isomorphic.trans` — nets that are renamed each other.
* `Mesh.isomorphic_iff_net` — isomorphic meshes are those with isomorphic nets.
-/

namespace Polyhedra

/-! ## Nets -/

namespace Net

variable {V F V' F' V'' F'' : Type} {N : Net V F} {N' : Net V' F'} {N'' : Net V'' F''}

/-- A ring is told by its face, but for where it begins. -/
theorem Ring.isRotated {f : F} {ring ring' : List V} (h : N.Ring f ring) (h' : N.Ring f ring') :
    ring.IsRotated ring' := by
  obtain ⟨v, hv⟩ := h.exists_touches
  refine isRotated_of_cycleEdges h.nodup h'.nodup (h.touches_iff.1 hv) (h'.touches_iff.1 hv) ?_
  exact fun x y hxy => (h.runs_iff x y).1 ((h'.runs_iff x y).2 hxy)

/-- One net is the other one with vertices and faces renamed. -/
def Isomorphic (N : Net V F) (N' : Net V' F') : Prop := ∃ φ ψ, N.Renames N' φ ψ

/-- On a closed surface the vertices are those that faces touch. -/
theorem Surface.isVertex_iff (h : N.Surface) {v : V} : N.IsVertex v ↔ ∃ f, N.Touches f v := by
  refine ⟨fun hv => ?_, fun ⟨f, w, hr⟩ => h.isVertex f v w hr⟩
  obtain ⟨around, hstar⟩ := h.exists_star v hv
  have hthree := hstar.three_le
  obtain ⟨f, hf⟩ := List.exists_mem_of_length_pos (show 0 < around.length by omega)
  exact ⟨f, (hstar.mem_iff f).1 hf⟩

namespace Renames

variable {φ : V → V'} {ψ : F → F'}

/-- Between closed surfaces it is enough to rename the edges of faces. -/
theorem of_runs (hN : N.Surface) (hN' : N'.Surface)
    (hruns : ∀ f' v' w', N'.Runs f' v' w' ↔
      ∃ f v w, N.Runs f v w ∧ ψ f = f' ∧ φ v = v' ∧ φ w = w')
    (hvertex : ∀ f g v w, N.Touches f v → N.Touches g w → φ v = φ w → v = w)
    (hface : ∀ f g v w, N.Touches f v → N.Touches g w → ψ f = ψ g → f = g) :
    N.Renames N' φ ψ where
  isVertex_iff v' := by
    rw [hN'.isVertex_iff]
    constructor
    · rintro ⟨f', w', hr'⟩
      obtain ⟨f, v, w, hr, -, rfl, -⟩ := (hruns _ _ _).1 hr'
      exact ⟨v, hN.isVertex f v w hr, rfl⟩
    · rintro ⟨v, hv, rfl⟩
      obtain ⟨f, w, hr⟩ := hN.isVertex_iff.1 hv
      exact ⟨ψ f, φ w, (hruns _ _ _).2 ⟨f, v, w, hr, rfl, rfl, rfl⟩⟩
  runs_iff := hruns
  vertex_inj v w hv hw := by
    obtain ⟨f, hf⟩ := hN.isVertex_iff.1 hv
    obtain ⟨g, hg⟩ := hN.isVertex_iff.1 hw
    exact hvertex f g v w hf hg
  face_inj := hface

theorem isVertex (h : N.Renames N' φ ψ) {v : V} (hv : N.IsVertex v) : N'.IsVertex (φ v) :=
  (h.isVertex_iff _).2 ⟨v, hv, rfl⟩

theorem trans {φ' : V' → V''} {ψ' : F' → F''} (h : N.Renames N' φ ψ)
    (h' : N'.Renames N'' φ' ψ') : N.Renames N'' (φ' ∘ φ) (ψ' ∘ ψ) where
  isVertex_iff v'' := by
    rw [h'.isVertex_iff]
    constructor
    · rintro ⟨v', hv', rfl⟩
      obtain ⟨v, hv, rfl⟩ := (h.isVertex_iff v').1 hv'
      exact ⟨v, hv, rfl⟩
    · rintro ⟨v, hv, rfl⟩
      exact ⟨φ v, h.isVertex hv, rfl⟩
  runs_iff f'' v'' w'' := by
    rw [h'.runs_iff]
    constructor
    · rintro ⟨f', v', w', hr', rfl, rfl, rfl⟩
      obtain ⟨f, v, w, hr, rfl, rfl, rfl⟩ := (h.runs_iff _ _ _).1 hr'
      exact ⟨f, v, w, hr, rfl, rfl, rfl⟩
    · rintro ⟨f, v, w, hr, rfl, rfl, rfl⟩
      exact ⟨ψ f, φ v, φ w, h.runs hr, rfl, rfl, rfl⟩
  vertex_inj v w hv hw heq :=
    h.vertex_inj v w hv hw (h'.vertex_inj _ _ (h.isVertex hv) (h.isVertex hw) heq)
  face_inj f g v w := by
    rintro ⟨x, hf⟩ ⟨y, hg⟩ heq
    exact h.face_inj f g v w ⟨x, hf⟩ ⟨y, hg⟩
      (h'.face_inj _ _ _ _ ⟨_, h.runs hf⟩ ⟨_, h.runs hg⟩ heq)

/-- The names can be taken back. -/
theorem symm [Nonempty V] [Nonempty F] (h : N.Renames N' φ ψ) (hN : N.Surface) :
    N'.Renames N (Function.invFunOn φ { v | N.IsVertex v })
      (Function.invFunOn ψ { f | ∃ v, N.Touches f v }) := by
  have hvertex : ∀ {v}, N.IsVertex v → Function.invFunOn φ { v | N.IsVertex v } (φ v) = v :=
    fun hv => Set.InjOn.leftInvOn_invFunOn (fun v hv w hw => h.vertex_inj v w hv hw) hv
  have hface : ∀ {f v}, N.Touches f v →
      Function.invFunOn ψ { f | ∃ v, N.Touches f v } (ψ f) = f := by
    intro f v hf
    refine Set.InjOn.leftInvOn_invFunOn ?_ (show f ∈ { f | ∃ v, N.Touches f v } from ⟨v, hf⟩)
    rintro f ⟨v, hf⟩ g ⟨w, hg⟩
    exact h.face_inj f g v w hf hg
  refine ⟨fun v => ?_, fun f v w => ?_, fun v' w' hv' hw' heq => ?_,
    fun f' g' v' w' hf' hg' heq => ?_⟩
  · constructor
    · exact fun hv => ⟨φ v, h.isVertex hv, hvertex hv⟩
    · rintro ⟨v', hv', rfl⟩
      obtain ⟨v, hv, rfl⟩ := (h.isVertex_iff v').1 hv'
      rwa [hvertex hv]
  · constructor
    · intro hr
      exact ⟨ψ f, φ v, φ w, h.runs hr, hface ⟨w, hr⟩, hvertex (hN.isVertex f v w hr),
        hvertex (hN.isVertex_right hr)⟩
    · rintro ⟨f', v', w', hr', rfl, rfl, rfl⟩
      obtain ⟨f, v, w, hr, rfl, rfl, rfl⟩ := (h.runs_iff _ _ _).1 hr'
      rwa [hface ⟨w, hr⟩, hvertex (hN.isVertex f v w hr), hvertex (hN.isVertex_right hr)]
  · obtain ⟨v, hv, rfl⟩ := (h.isVertex_iff v').1 hv'
    obtain ⟨w, hw, rfl⟩ := (h.isVertex_iff w').1 hw'
    rw [hvertex hv, hvertex hw] at heq
    rw [heq]
  · obtain ⟨x', hr'⟩ := hf'
    obtain ⟨y', hs'⟩ := hg'
    obtain ⟨f, v, x, hr, rfl, -, -⟩ := (h.runs_iff _ _ _).1 hr'
    obtain ⟨g, w, y, hs, rfl, -, -⟩ := (h.runs_iff _ _ _).1 hs'
    rw [hface ⟨x, hr⟩, hface ⟨y, hs⟩] at heq
    rw [heq]

/-- What is renamed may run backwards. -/
theorem opposite (h : N.Renames N' φ ψ) (hN : N.Surface) :
    N.opposite.Renames N'.opposite φ ψ where
  isVertex_iff := h.isVertex_iff
  runs_iff f' v' w' := by
    refine (h.runs_iff f' w' v').trans ?_
    constructor
    · rintro ⟨f, v, w, hr, hf, hv, hw⟩
      exact ⟨f, w, v, hr, hf, hw, hv⟩
    · rintro ⟨f, v, w, hr, hf, hv, hw⟩
      exact ⟨f, w, v, hr, hf, hw, hv⟩
  vertex_inj := h.vertex_inj
  face_inj f g v w hf hg :=
    h.face_inj f g v w (hN.touches_opposite_iff.1 hf) (hN.touches_opposite_iff.1 hg)

end Renames

theorem Isomorphic.symm [Nonempty V] [Nonempty F] (h : N.Isomorphic N') (hN : N.Surface) :
    N'.Isomorphic N := by
  obtain ⟨φ, ψ, h⟩ := h
  exact ⟨_, _, h.symm hN⟩

theorem Isomorphic.trans (h : N.Isomorphic N') (h' : N'.Isomorphic N'') : N.Isomorphic N'' := by
  obtain ⟨φ, ψ, h⟩ := h
  obtain ⟨φ', ψ', h'⟩ := h'
  exact ⟨_, _, h.trans h'⟩

theorem Isomorphic.opposite (h : N.Isomorphic N') (hN : N.Surface) :
    N.opposite.Isomorphic N'.opposite := by
  obtain ⟨φ, ψ, h⟩ := h
  exact ⟨φ, ψ, h.opposite hN⟩

end Net

/-! ## Meshes -/

namespace Mesh

variable {m m' : Mesh} {φ ψ : Nat → Nat}

/--
The vertices are numbered anew by `φ` and the faces by `ψ`, each one-to-one, and
a face becomes the face with its new number, as a cycle.
-/
structure Maps (m m' : Mesh) (φ ψ : Nat → Nat) : Prop where
  vertices : Set.BijOn φ (Set.Iio m.vertexCount) (Set.Iio m'.vertexCount)
  faces : Set.BijOn ψ (Set.Iio m.faceCount) (Set.Iio m'.faceCount)
  cycle : ∀ i f f', m.faces[i]? = some f → m'.faces[ψ i]? = some f' → (f.map φ).IsRotated f'

/-- The meshes are the same oriented surface, but for the numbers of vertices and faces. -/
def Isomorphic (m m' : Mesh) : Prop := ∃ φ ψ, m.Maps m' φ ψ

/-- Meshes that are mapped have nets that are renamed. -/
theorem Maps.renames (h : m.Maps m' φ ψ) : m.net.Renames m'.net φ ψ where
  isVertex_iff v' := by
    constructor
    · intro hv'
      obtain ⟨v, hv, rfl⟩ := h.vertices.surjOn hv'
      exact ⟨v, hv, rfl⟩
    · rintro ⟨v, hv, rfl⟩
      exact h.vertices.mapsTo hv
  runs_iff i' v' w' := by
    have cycle : ∀ {i f f'}, m.faces[i]? = some f → m'.faces[ψ i]? = some f' →
        ((v', w') ∈ f'.edges ↔ ∃ v w, (v, w) ∈ f.edges ∧ φ v = v' ∧ φ w = w') := by
      intro i f f' hf hf'
      rw [Face.edges, ← mem_cycleEdges_of_isRotated (h.cycle i f f' hf hf'), mem_cycleEdges_map]
      rfl
    constructor
    · rintro ⟨f', hf', he'⟩
      obtain ⟨i, hi, rfl⟩ := h.faces.surjOn (List.getElem?_eq_some_iff.1 hf').1
      have hf : m.faces[i]? = some m.faces[i] := List.getElem?_eq_getElem hi
      obtain ⟨v, w, he, hv, hw⟩ := (cycle hf hf').1 he'
      exact ⟨i, v, w, ⟨_, hf, he⟩, rfl, hv, hw⟩
    · rintro ⟨i, v, w, ⟨f, hf, he⟩, rfl, hv, hw⟩
      have hlt : ψ i < m'.faces.length := h.faces.mapsTo (List.getElem?_eq_some_iff.1 hf).1
      have hf' : m'.faces[ψ i]? = some m'.faces[ψ i] := List.getElem?_eq_getElem hlt
      exact ⟨_, hf', (cycle hf hf').2 ⟨v, w, he, hv, hw⟩⟩
  vertex_inj v w hv hw heq := h.vertices.injOn hv hw heq
  face_inj i j v w := by
    rintro ⟨x, hi⟩ ⟨y, hj⟩ heq
    exact h.faces.injOn (lt_faceCount_of_runs hi) (lt_faceCount_of_runs hj) heq

/-- Closed surfaces whose nets are renamed are mapped. -/
theorem maps_of_renames (hm : m.Surface) (hm' : m'.Surface) (h : m.net.Renames m'.net φ ψ) :
    m.Maps m' φ ψ where
  vertices := by
    refine ⟨fun v hv => h.isVertex hv, fun v hv w hw heq => h.vertex_inj v w hv hw heq, ?_⟩
    intro v' hv'
    obtain ⟨v, hv, rfl⟩ := (h.isVertex_iff v').1 hv'
    exact ⟨v, hv, rfl⟩
  faces := by
    refine ⟨fun i hi => ?_, fun i hi j hj heq => ?_, fun i' hi' => ?_⟩
    · obtain ⟨u, v, hr⟩ := exists_runs hm hi
      exact lt_faceCount_of_runs (h.runs hr)
    · obtain ⟨u, v, hr⟩ := exists_runs hm hi
      obtain ⟨x, y, hs⟩ := exists_runs hm hj
      exact h.face_inj i j u x ⟨v, hr⟩ ⟨y, hs⟩ heq
    · obtain ⟨u', v', hr'⟩ := exists_runs hm' hi'
      obtain ⟨i, u, v, hr, rfl, -, -⟩ := (h.runs_iff _ _ _).1 hr'
      exact ⟨i, lt_faceCount_of_runs hr, rfl⟩
  cycle i f f' hf hf' := by
    have hring := ring_net hf (hm.simple f (List.mem_of_getElem? hf))
    have hring' := ring_net hf' (hm'.simple f' (List.mem_of_getElem? hf'))
    exact (h.ring (surface_iff.1 hm).2 hring).isRotated hring'

/-- Closed surfaces are isomorphic just when their nets are. -/
theorem isomorphic_iff_net (hm : m.Surface) (hm' : m'.Surface) :
    m.Isomorphic m' ↔ m.net.Isomorphic m'.net := by
  constructor
  · rintro ⟨φ, ψ, h⟩
    exact ⟨φ, ψ, h.renames⟩
  · rintro ⟨φ, ψ, h⟩
    exact ⟨φ, ψ, maps_of_renames hm hm' h⟩

end Mesh

/-! ## Assembled meshes -/

/-- What is built by a design of a polyhedron is one, with the net of the design. -/
theorem Mesh.exists_built (m : Mesh) (operator : Text) {design : Design}
    (h : design.net.Polyhedral) (hsize : design.sizeFault? = none) :
    ∃ a, m.build operator design = .ok a ∧ a.Polyhedral ∧ design.net.Isomorphic a.net := by
  obtain ⟨a, ha, hassembles⟩ := Blueprint.exists_assembled h.toSurface hsize (operator ++ m.name)
  have hrenames := hassembles.renames
  exact ⟨a, ha, polyhedral_iff.2 ⟨hassembles.simple h.toSurface, hrenames.polyhedral h⟩,
    _, _, hrenames⟩

end Polyhedra
