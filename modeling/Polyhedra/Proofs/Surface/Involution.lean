import Polyhedra.Proofs.Surface.Families
import Polyhedra.Proofs.Surface.Ownership

/-!
# The dual of the dual

The dual of the dual of a polyhedron is the polyhedron again: two faces have one
edge in common at most, so the two vertices that follow one another around a face
of the double dual are those of that edge (`Net.Polyhedral.dual_dual`).

Face for face, a mesh and the dual of its dual are the same cycles.  Only where a
cycle begins is forgotten on the way: every face of a dual begins with the first
face at its vertex, so that in the dual of the dual it begins with its least
vertex (`Face.fromLeast`).

## Main results

* `Net.Polyhedral.dual_dual` — on nets the dual undoes itself.
* `dualName_dualName_iff` — when a name comes back.
* `Mesh.Polyhedral.dual_involution` — the dual of the dual of a polyhedron.
-/

namespace Polyhedra

/-! ## Nets -/

/-- The dual of the dual of a polyhedron is the polyhedron. -/
theorem Net.Polyhedral.dual_dual {V F : Type} {N : Net V F} (h : N.Polyhedral) :
    N.dual.dual = N := by
  ext
  · next v =>
    constructor
    · rintro ⟨f, htouches⟩
      obtain ⟨w, hr⟩ := h.touches_dual_iff.1 htouches
      exact h.isVertex f v w hr
    · intro hv
      obtain ⟨around, hstar⟩ := h.exists_star v hv
      obtain ⟨f, hf⟩ := (h.ring_dual hstar).exists_touches
      exact ⟨f, hf⟩
  · next f v w =>
    constructor
    · -- the faces `f` and `g` meet along an edge from `v` and along an edge to `w`
      rintro ⟨g, ⟨x, hgx, hfx⟩, y, hfy, hgy⟩
      obtain ⟨-, hyw⟩ := h.edge_unique hfy hgy hfx hgx
      rw [← hyw]
      exact hfy
    · intro hf
      obtain ⟨g, hg⟩ := h.paired f v w hf
      exact ⟨g, ⟨v, hg, hf⟩, w, hf, hg⟩

/-! ## Cycles and where they begin -/

namespace Face

/-- The same face, written down from its least vertex on. -/
def fromLeast (f : Face) : Face := f.rotate (f.idxOf (f.min?.getD 0))

theorem head?_fromLeast {f : Face} {v : Nat} (hv : v ∈ f) (hleast : ∀ w ∈ f, v ≤ w) :
    f.fromLeast.head? = some v := by
  have hmin : f.min? = some v := List.min?_eq_some_iff.2 ⟨hv, hleast⟩
  rw [fromLeast, hmin, Option.getD_some, List.head?_rotate (List.idxOf_lt_length_of_mem hv)]
  exact List.getElem?_idxOf hv

/-- A face that runs along the same edges and begins with the least vertex is that face. -/
theorem eq_fromLeast {f g : Face} {v : Nat} (hf : f.Nodup) (hg : g.Nodup)
    (hhead : g.head? = some v) (hv : v ∈ f) (hleast : ∀ w ∈ f, v ≤ w)
    (hedges : ∀ x y, (x, y) ∈ g.edges → (x, y) ∈ f.edges) : g = f.fromLeast := by
  refine eq_of_cycleEdges (List.nodup_rotate.2 hf) hg (head?_fromLeast hv hleast) hhead ?_
  intro x y hxy
  have hplace : f.idxOf (f.min?.getD 0) ≤ f.length := List.idxOf_le_length
  exact (mem_cycleEdges_rotate hplace).2 (hedges x y hxy)

example : fromLeast [4, 7, 2, 6] = [2, 6, 4, 7] := by decide

end Face

/-! ## Names -/

/-- A name comes back unless it begins with two duals. -/
theorem dualName_dualName_iff {name : Text} :
    dualName (dualName name) = name ↔ ¬ ['d', 'd'] <+: name := by
  by_cases hd : name.head? = some 'd'
  · obtain ⟨rest, hrest⟩ := List.head?_eq_some_iff.1 hd
    subst hrest
    show dualName rest = 'd' :: rest ↔ _
    by_cases hdd : rest.head? = some 'd'
    · obtain ⟨rest', hrest'⟩ := List.head?_eq_some_iff.1 hdd
      subst hrest'
      have hshorter : dualName ('d' :: rest') ≠ 'd' :: 'd' :: rest' := by
        intro heq
        have hlength : rest'.length = rest'.length + 2 := congrArg List.length heq
        omega
      simp [hshorter]
    · have happart : ¬ ['d', 'd'] <+: 'd' :: rest := by
        intro hprefix
        obtain ⟨t, ht⟩ := hprefix
        exact hdd (by simp [← (List.cons.inj ht).2])
      simp [dualName_of_head? hdd, happart]
  · have happart : ¬ ['d', 'd'] <+: name := by
      intro hprefix
      obtain ⟨t, ht⟩ := hprefix
      exact hd (by simp [← ht])
    rw [dualName_of_head? hd]
    exact iff_of_true rfl happart

/-! ## Meshes -/

namespace Mesh

variable {m : Mesh}

/-- A face of a dual begins with the first face at its vertex. -/
theorem head?_of_dual {d : Mesh} {v : Nat} {around : Face} (hrange : m.InRange)
    (hd : m.dual = .ok d) (haround : d.faces[v]? = some around) :
    ∃ i, around.head? = some i ∧ ∀ j, m.Touches j v → i ≤ j := by
  obtain ⟨hv, hface⟩ := List.getElem?_eq_some_iff.1 haround
  have hall := exists_face_of_dual hrange hd
  have hwinds := hall.get (by rw [hall.length_eq]; exact hv) hv
  rw [List.get_eq_getElem, List.get_eq_getElem, List.getElem_range, hface] at hwinds
  exact hwinds.1.first

/-- The faces of the dual of a dual are those of the mesh, each from its least vertex on. -/
theorem faces_eq_of_dual_dual {d b : Mesh} (h : m.Polyhedral) (hd : d.Polyhedral)
    (hnet : d.net = m.net.dual) (hb : d.dual = .ok b) (hpoly : b.Polyhedral)
    (hnet' : b.net = m.net) (hcount : b.faceCount = m.faceCount) :
    b.faces = m.faces.map Face.fromLeast := by
  refine List.ext_getElem ?_ fun i hi hi' => ?_
  · rw [List.length_map]
    exact hcount
  · have hlt : i < m.faces.length := by simpa using hi'
    rw [List.getElem_map]
    have hface : m.faces[i]? = some m.faces[i] := List.getElem?_eq_getElem hlt
    have hface' : b.faces[i]? = some b.faces[i] := List.getElem?_eq_getElem hi
    have hring := ring_net hface (h.simple _ (List.getElem_mem hlt))
    have hring' := ring_net hface' (hpoly.simple _ (List.getElem_mem hi))
    rw [hnet'] at hring'
    have htouches : ∀ v, d.Touches v i ↔ v ∈ m.faces[i] := by
      intro v
      rw [← touches_net_iff, hnet, (polyhedral_iff.1 h).2.touches_dual_iff, hring.touches_iff]
    obtain ⟨v, hhead, hfirst⟩ := head?_of_dual hd.inRange hb hface'
    have hv : v ∈ b.faces[i] := List.mem_of_head? hhead
    rw [← hring'.touches_iff, hring.touches_iff] at hv
    refine Face.eq_fromLeast hring.nodup hring'.nodup hhead hv
      (fun w hw => hfirst w ((htouches w).2 hw)) fun x y hxy => ?_
    exact (hring.runs_iff x y).1 ((hring'.runs_iff x y).2 hxy)

/--
A polyhedron has a dual, which is one too, with a vertex for each face and a face
for each vertex; there is none only if it would be too large.  The dual of the dual
has the faces of the polyhedron, each from its least vertex on, and its name, unless
that begins with two duals.
-/
theorem Polyhedral.dual_involution (h : m.Polyhedral) :
    (∀ e, oversize? m.faceCount m.vertexCount = some e → m.dual = .error e) ∧
      (oversize? m.faceCount m.vertexCount = none →
        ∃ d, m.dual = .ok d ∧ d.Polyhedral ∧ d.vertexCount = m.faceCount ∧
          d.faceCount = m.vertexCount ∧
            ∃ b, d.dual = .ok b ∧ b.faces = m.faces.map Face.fromLeast ∧
              b.vertexCount = m.vertexCount ∧ (b.name = m.name ↔ ¬ ['d', 'd'] <+: m.name)) := by
  refine ⟨fun e hsize => dual_eq_error_of_oversize h.toSurface hsize, fun hsize => ?_⟩
  have hlimits := oversize?_dual_eq_none.1 hsize
  obtain ⟨d, hd, hpoly, hnet⟩ := h.exists_dual hlimits
  obtain ⟨b, hb, hpoly', hnet'⟩ := hpoly.exists_dual (hlimits.dual hd)
  obtain ⟨hname, hfaces, hvertices⟩ := dual_eq_ok hd
  obtain ⟨hname', hfaces', hvertices'⟩ := dual_eq_ok hb
  rw [hnet, (polyhedral_iff.1 h).2.dual_dual] at hnet'
  refine ⟨d, hd, hpoly, hvertices, hfaces, b, hb, ?_, hvertices'.trans hfaces, ?_⟩
  · exact faces_eq_of_dual_dual h hpoly hnet hb hpoly' hnet' (hfaces'.trans hvertices)
  · rw [hname', hname]
    exact dualName_dualName_iff

/-- The dual of the dual of the cube is the cube, each face from its least vertex on. -/
theorem Polyhedral.dual_involution_cube :
    cube.Polyhedral ∧ ∃ d, cube.dual = .ok d ∧ d.Polyhedral ∧ d.vertexCount = 6 ∧
      d.faceCount = 8 ∧ ∃ b, d.dual = .ok b ∧ b.faces = cube.faces.map Face.fromLeast ∧
        b.vertexCount = 8 ∧ b.name = ['C'] := by
  have hpoly : cube.Polyhedral := spherical_cube.toPolyhedral
  obtain ⟨d, hd, hdpoly, hvertices, hfaces, b, hb, hb', hbvertices, hname⟩ :=
    (Polyhedral.dual_involution hpoly).2 (by decide)
  exact ⟨hpoly, d, hd, hdpoly, hvertices, hfaces, b, hb, hb', hbvertices, hname.2 (by decide)⟩

/-- A prism with so many vertices that its dual would have too many faces. -/
theorem Polyhedral.dual_outgrows :
    (prism 5000001).Polyhedral ∧
      (prism 5000001).dual = .error (.tooManyFaces 10000002 maxFaces) := by
  have hspherical : (prism 5000001).Spherical := spherical_prism (by decide)
  refine ⟨hspherical.toPolyhedral, dual_eq_error_of_oversize hspherical.toSurface ?_⟩
  rw [faceCount_prism, vertexCount_prism]
  exact oversize?_of_faces (by decide) (by decide)

end Mesh

end Polyhedra
