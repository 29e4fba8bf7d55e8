import Polyhedra.Proofs.Surface.Isomorphism

/-!
# The dual of the mirror image

Reflection in the centre runs all faces of a mesh backwards.  The faces at a vertex then
follow one another the other way round, so that the net of the dual runs backwards as well
(`Net.Surface.dual_opposite`).

What stays is where the faces of the dual begin.  Each begins with the first face at its
vertex, and reflection leaves every face in its place.  So, face for face, the dual of the
mirror image is the dual of the mesh run backwards from where it begins
(`Face.backwards`).

## Main results

* `Mesh.head?_of_dual_inverted` — the faces of both duals begin alike.
* `Mesh.Polyhedral.dual_inverted` — the dual of the mirror image of a polyhedron.
-/

namespace Polyhedra

/-! ## Running a cycle backwards from its first entry -/

namespace Face

variable {f : Face} {u v w : Nat}

/-- The same face run backwards, from the same vertex on. -/
def backwards : Face → Face
  | [] => []
  | v :: rest => v :: rest.reverse

theorem head?_backwards (f : Face) : f.backwards.head? = f.head? := by
  cases f <;> rfl

/-- But for where it begins, a face run backwards is the list of its vertices reversed. -/
theorem isRotated_reverse_backwards (f : Face) : f.reverse.IsRotated f.backwards := by
  cases f with
  | nil => exact .refl _
  | cons v rest =>
    rw [List.reverse_cons]
    exact List.isRotated_append

theorem nodup_backwards : f.backwards.Nodup ↔ f.Nodup := by
  rw [← (isRotated_reverse_backwards f).nodup_iff, List.nodup_reverse]

theorem mem_edges_backwards : (v, w) ∈ f.backwards.edges ↔ (w, v) ∈ f.edges := by
  rw [edges, ← mem_cycleEdges_of_isRotated (isRotated_reverse_backwards f),
    mem_cycleEdges_reverse, edges]

/-- A face that runs along the edges the other way, from the same vertex on, runs backwards. -/
theorem eq_backwards {g : Face} (hf : f.Nodup) (hg : g.Nodup) (hu : f.head? = some u)
    (hu' : g.head? = some u) (hedges : ∀ x y, (x, y) ∈ g.edges → (y, x) ∈ f.edges) :
    g = f.backwards := by
  refine eq_of_cycleEdges (nodup_backwards.2 hf) hg (f.head?_backwards.trans hu) hu' ?_
  exact fun x y hxy => mem_edges_backwards.2 (hedges x y hxy)

example : backwards [4, 7, 2, 6] = [4, 6, 2, 7] := by decide

end Face

/-! ## Nets -/

/-- The dual of a net that runs backwards runs backwards. -/
theorem Net.Surface.dual_opposite {V F : Type} {N : Net V F} (h : N.Surface) :
    N.opposite.dual = N.dual.opposite := by
  ext
  · next f => exact exists_congr fun v => h.touches_opposite_iff
  · next v g f => exact exists_congr fun w => and_comm

/-! ## Meshes -/

namespace Mesh

variable {m d d' : Mesh} {i v : Nat} {around around' : Face}

theorem touches_inverted_iff : m.inverted.Touches i v ↔ m.Touches i v := by
  show (∃ f, (m.faces.map List.reverse)[i]? = some f ∧ v ∈ f) ↔ _
  rw [List.getElem?_map]
  constructor
  · rintro ⟨_, hreversed, hv⟩
    obtain ⟨f, hf, rfl⟩ := Option.map_eq_some_iff.1 hreversed
    exact ⟨f, hf, List.mem_reverse.1 hv⟩
  · rintro ⟨f, hf, hv⟩
    exact ⟨f.reverse, by rw [hf, Option.map_some], List.mem_reverse.2 hv⟩

/-- The dual face of a vertex begins with the same face, whichever way the faces run. -/
theorem head?_of_dual_inverted (h : m.Polyhedral) (hd : m.dual = .ok d)
    (hd' : m.inverted.dual = .ok d') (hring : m.net.dual.Ring v around)
    (hring' : m.net.dual.opposite.Ring v around') (haround : d.faces[v]? = some around)
    (haround' : d'.faces[v]? = some around') : around'.head? = around.head? := by
  obtain ⟨-, hnet⟩ := polyhedral_iff.1 h
  obtain ⟨i, hi, hfirst⟩ := head?_of_dual h.inRange hd haround
  obtain ⟨j, hj, hfirst'⟩ := head?_of_dual h.inverted.inRange hd' haround'
  have hiv : m.Touches i v := by
    rw [← touches_net_iff, ← hnet.touches_dual_iff, hring.touches_iff]
    exact List.mem_of_head? hi
  have hjv : m.Touches j v := by
    rw [← touches_net_iff, ← hnet.touches_dual_iff, ← hnet.dual.touches_opposite_iff,
      hring'.touches_iff]
    exact List.mem_of_head? hj
  have hij := hfirst j hjv
  have hji := hfirst' i (touches_inverted_iff.2 hiv)
  rw [hi, hj, Nat.le_antisymm hji hij]

/-- Face for face, the dual of the mirror image is the dual run backwards. -/
theorem faces_of_dual_inverted (h : m.Polyhedral) (hd : m.dual = .ok d)
    (hd' : m.inverted.dual = .ok d') : d'.faces = d.faces.map Face.backwards := by
  obtain ⟨-, hnet⟩ := polyhedral_iff.1 h
  obtain ⟨hpoly, hdnet⟩ := h.of_dual hd
  obtain ⟨hpoly', hdnet'⟩ := h.inverted.of_dual hd'
  rw [net_inverted, hnet.dual_opposite] at hdnet'
  have hcount : d'.faces.length = d.faces.length := by
    obtain ⟨-, hfaces, -⟩ := dual_eq_ok hd
    obtain ⟨-, hfaces', -⟩ := dual_eq_ok hd'
    exact hfaces'.trans ((Array.size_map ..).trans hfaces.symm)
  refine List.ext_getElem (hcount.trans (List.length_map _).symm) fun v hv' hmap => ?_
  have hv : v < d.faces.length := hcount ▸ hv'
  have haround : d.faces[v]? = some d.faces[v] := List.getElem?_eq_getElem hv
  have haround' : d'.faces[v]? = some d'.faces[v] := List.getElem?_eq_getElem hv'
  have hring := ring_net haround (hpoly.simple _ (List.getElem_mem hv))
  have hring' := ring_net haround' (hpoly'.simple _ (List.getElem_mem hv'))
  rw [hdnet] at hring
  rw [hdnet'] at hring'
  obtain ⟨i, hi, -⟩ := head?_of_dual h.inRange hd haround
  have hhead := head?_of_dual_inverted h hd hd' hring hring' haround haround'
  rw [List.getElem_map]
  refine Face.eq_backwards hring.nodup hring'.nodup hi (hhead.trans hi) fun x y hxy => ?_
  exact (hring.runs_iff y x).1 ((hring'.runs_iff x y).2 hxy)

/--
The mirror image of a polyhedron has a dual: that of the polyhedron, with each face run
backwards from the entry with which it begins.  There is none only if it would be too
large, and then the polyhedron has none for the same reason.
-/
theorem Polyhedral.dual_inverted (h : m.Polyhedral) :
    (∀ e, oversize? m.faceCount m.vertexCount = some e →
        m.dual = .error e ∧ m.inverted.dual = .error e) ∧
      (oversize? m.faceCount m.vertexCount = none →
        ∃ d, m.dual = .ok d ∧
          m.inverted.dual = .ok { d with faces := d.faces.map Face.backwards }) := by
  have hsame : oversize? m.inverted.faceCount m.inverted.vertexCount =
      oversize? m.faceCount m.vertexCount := by
    rw [faceCount_inverted, vertexCount_inverted]
  refine ⟨fun e hsize => ⟨dual_eq_error_of_oversize h.toSurface hsize,
    dual_eq_error_of_oversize h.inverted.toSurface (hsame.trans hsize)⟩, fun hsize => ?_⟩
  obtain ⟨d, hd, -, -⟩ := h.exists_dual (oversize?_dual_eq_none.1 hsize)
  obtain ⟨d', hd', -, -⟩ := h.inverted.exists_dual (oversize?_dual_eq_none.1 (hsame.trans hsize))
  have hfaces := faces_of_dual_inverted h hd hd'
  obtain ⟨ds, -, rfl⟩ := Except.map_eq_ok.1 hd
  obtain ⟨ds', -, rfl⟩ := Except.map_eq_ok.1 hd'
  have hbackwards : ds' = ds.map Face.backwards := hfaces
  refine ⟨_, hd, hd'.trans ?_⟩
  rw [faceCount_inverted, hbackwards]
  rfl

/-- The dual of the cube and the dual of its mirror image. -/
theorem Polyhedral.dual_inverted_cube :
    cube.Polyhedral ∧ ∃ d, cube.dual = .ok d ∧
      cube.inverted.dual = .ok { d with faces := d.faces.map Face.backwards } :=
  have hpoly : cube.Polyhedral := spherical_cube.toPolyhedral
  ⟨hpoly, (Polyhedral.dual_inverted hpoly).2 (by decide)⟩

/-- A prism whose mirror image is a polyhedron with too many vertices to have a dual. -/
theorem Polyhedral.dual_inverted_outgrows :
    (prism 5000001).Polyhedral ∧
      (prism 5000001).inverted.dual = .error (.tooManyFaces 10000002 maxFaces) := by
  have hspherical : (prism 5000001).Spherical := spherical_prism (by decide)
  refine ⟨hspherical.toPolyhedral, dual_eq_error_of_oversize hspherical.inverted.toSurface ?_⟩
  rw [faceCount_inverted, vertexCount_inverted, faceCount_prism, vertexCount_prism]
  exact oversize?_of_faces (by decide) (by decide)

end Mesh

end Polyhedra
