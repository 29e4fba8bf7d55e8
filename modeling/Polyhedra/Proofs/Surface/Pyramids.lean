import Polyhedra.Proofs.Surface.Families
import Polyhedra.Proofs.Surface.Kis
import Polyhedra.Proofs.Surface.Outlines

/-!
# Kis on any mesh

Kis needs no closed surface: it succeeds on every mesh whose faces are simple and
in range, unless the outcome would be too large.  It lays out one face after another,
a face that is not selected round its old vertices, and a selected one as a triangle
on each of its edges.  The old vertices come first and keep their numbers, and the
apexes follow in the order of their faces (`Mesh.apex`).  So the faces of the outcome
can be written down (`Mesh.kisOutline`).  On a closed surface the outcome is a closed
surface again, with the same Euler characteristic.

## Main results

* `Mesh.Proper.faces_kis` — the faces of the outcome.
* `Mesh.Surface.eulerNumber_raisedMesh` — kis keeps the Euler characteristic.
* `Mesh.Proper.exists_kis` — what kis makes of a mesh.
-/

namespace Polyhedra

/-- Among the entries that are selected, one comes after those selected before it. -/
theorem getElem?_filter_of_getElem? {α : Type} {p : α → Bool} {l : List α} {i : Nat} {a : α}
    (ha : l[i]? = some a) (hp : p a = true) :
    (l.filter p)[((l.take i).filter p).length]? = some a := by
  obtain ⟨hlt, rfl⟩ := List.getElem?_eq_some_iff.1 ha
  have hsplit : l.filter p = (l.take i).filter p ++ l[i] :: (l.drop (i + 1)).filter p := by
    rw [← List.filter_cons_of_pos hp, ← List.filter_append, List.getElem_cons_drop,
      List.take_append_drop]
  rw [hsplit, List.getElem?_append_right (Nat.le_refl _), Nat.sub_self]
  rfl

namespace Mesh

variable {sides : Option Nat} {m a : Mesh} {i j u v : Nat}

/-! ## The outcome in so many words -/

/-- The faces that a selector takes. -/
def selectedFaces (sides : Option Nat) (m : Mesh) : List Face := m.faces.filter (selects sides)

/-- The number of the apex over face `i`: the apexes follow the old vertices, face by face. -/
def apex (sides : Option Nat) (m : Mesh) (i : Nat) : Nat :=
  m.vertexCount + ((m.faces.take i).filter (selects sides)).length

/-- What takes the place of face `i`: a triangle on each of its edges, or the face itself. -/
def kisOutline (sides : Option Nat) (m : Mesh) (f : Face) (i : Nat) : List Face :=
  if selects sides f then f.edges.map fun (u, v) => [v, m.apex sides i, u] else [f]

/-- The number of faces that kis makes: a selected face gives way to one for each side. -/
def kisFaceCount (sides : Option Nat) (m : Mesh) : Nat :=
  m.faceCount - (m.selectedFaces sides).length + ((m.selectedFaces sides).map List.length).sum

/-- The mesh that kis makes. -/
def raisedMesh (sides : Option Nat) (m : Mesh) : Mesh where
  name := (Operation.kis sides).text ++ m.name
  faces := m.faces.zipIdx.flatMap fun (f, i) => m.kisOutline sides f i
  vertices := (m.kisDesign sides).positions

/-- The mesh `a` is `m` with a pyramid on every selected face. -/
structure Raises (sides : Option Nat) (m a : Mesh) : Prop where
  name : a.name = (Operation.kis sides).text ++ m.name
  /-- Every selected face brings a vertex. -/
  vertexCount : a.vertexCount = m.vertexCount + (m.selectedFaces sides).length
  /-- The old vertices keep their numbers and positions. -/
  old : ∀ v < m.vertexCount, a.vertices[v]? = m.vertices[v]?
  /-- The apex over a selected face lies at its centroid. -/
  apex : ∀ i f, m.faces[i]? = some f → selects sides f = true →
    a.vertices[m.apex sides i]? = some (Point.centroid (f.map m.position))
  /-- No two selected faces have their apex in common. -/
  apex_inj : ∀ i j f g, m.faces[i]? = some f → m.faces[j]? = some g → selects sides f = true →
    selects sides g = true → m.apex sides i = m.apex sides j → i = j
  /-- Every selected face gives way to as many faces as it has sides. -/
  faceCount : a.faceCount + (m.selectedFaces sides).length =
    m.faceCount + ((m.selectedFaces sides).map List.length).sum
  faces : a.faces = m.faces.zipIdx.flatMap fun (f, i) => m.kisOutline sides f i

/-! ## Outlines -/

/-- The faces of kis, each as its patch and the ring of its sites. -/
def kisOutlines (sides : Option Nat) (m : Mesh) : List (Patch × List Site) :=
  m.faces.zipIdx.flatMap fun (f, i) =>
    if selects sides f then
      f.edges.map fun (u, v) => (.corner i u, [.vertex v, .center i, .vertex u])
    else [(.face i, f.map .vertex)]

theorem mem_kisOutlines {o : Patch × List Site} :
    o ∈ m.kisOutlines sides ↔
      (∃ i u v, m.net.Runs i u v ∧ m.raised sides i = true ∧
        o = (.corner i u, [.vertex v, .center i, .vertex u])) ∨
      ∃ i f, m.faces[i]? = some f ∧ m.raised sides i = false ∧ o = (.face i, f.map .vertex) := by
  rw [kisOutlines, List.mem_flatMap]
  constructor
  · rintro ⟨⟨f, i⟩, hf, ho⟩
    rw [List.mem_zipIdx_iff_getElem?] at hf
    dsimp only at hf ho
    split at ho
    · next hselects =>
      obtain ⟨⟨u, v⟩, huv, rfl⟩ := List.mem_map.1 ho
      exact .inl ⟨i, u, v, ⟨f, hf, huv⟩, (raised_eq hf).trans hselects, rfl⟩
    · next hselects =>
      obtain rfl : o = (.face i, f.map .vertex) := by simpa using ho
      exact .inr ⟨i, f, hf, (raised_eq hf).trans (by simpa using hselects), rfl⟩
  · rintro (⟨i, u, v, ⟨f, hf, huv⟩, hraised, rfl⟩ | ⟨i, f, hf, hraised, rfl⟩)
    · refine ⟨(f, i), List.mem_zipIdx_iff_getElem?.2 hf, ?_⟩
      rw [raised_eq hf] at hraised
      simp only [hraised, if_true]
      exact List.mem_map.2 ⟨(u, v), huv, rfl⟩
    · refine ⟨(f, i), List.mem_zipIdx_iff_getElem?.2 hf, ?_⟩
      rw [raised_eq hf] at hraised
      simp [hraised]

/-- The flags of kis lay out one face after another. -/
theorem flags_kis_outlines (sides : Option Nat) (m : Mesh) :
    (m.kisDesign sides).flags.map (fun flag => (flag.face, flag.target)) =
      (m.kisOutlines sides).flatMap fun o => o.2.map (o.1, ·) := by
  rw [kisDesign, kisOutlines, List.map_flatMap, List.flatMap_assoc]
  refine List.flatMap_congr ?_
  rintro ⟨f, i⟩ -
  dsimp only
  split
  · next hselects =>
    rw [kisFaceFlags, List.map_flatMap, List.flatMap_map]
    refine List.flatMap_congr ?_
    rintro ⟨u, v⟩ -
    simp [kisFlags, hselects]
  · next hselects =>
    have hends : (f.map Site.vertex).map (Patch.face i, ·) =
        f.edges.map fun e => (Patch.face i, Site.vertex e.2) := by
      rw [List.map_map]
      conv_lhs => rw [← map_snd_cycleEdges f, List.map_map]
      rfl
    rw [kisFaceFlags, List.map_flatMap, List.flatMap_singleton, hends, List.map_eq_flatMap]
    refine List.flatMap_congr ?_
    rintro ⟨u, v⟩ -
    simp [kisFlags, hselects]

/-- The patches of the outlines are those that cover the faces, in another order. -/
theorem perm_kisOutlines (sides : Option Nat) (m : Mesh) :
    ((m.kisOutlines sides).map Prod.fst).Perm (m.kisFaces sides) := by
  rw [kisOutlines, kisFaces, List.map_flatMap]
  refine List.Perm.flatMap_left _ ?_
  rintro ⟨f, i⟩ -
  dsimp only
  split
  · have hperm := (perm_map_fst_cycleEdges f).map (Patch.corner i)
    rw [List.map_map] at hperm
    rw [List.map_map]
    exact hperm
  · rfl

/-! ## Numbers -/

/-- A vertex keeps its place. -/
theorem getElem?_vertices_kis_old {p : Point} (hp : m.vertices[v]? = some p) :
    (m.kisDesign sides).vertices[v]? = some (.vertex v, p) := by
  have hlt : v < (m.vertexSites id).length := by
    obtain ⟨hlt, -⟩ := Array.getElem?_eq_some_iff.1 hp
    simpa [vertexSites] using hlt
  rw [kisDesign, List.getElem?_append_left hlt, vertexSites, List.getElem?_map,
    List.getElem?_zipIdx, Array.getElem?_toList, hp]
  simp

theorem getElem?_centerSites_of_face {f : Face} (hf : m.faces[i]? = some f) :
    (m.centerSites id)[i]? = some (.center i, Point.centroid (f.map m.position)) := by
  rw [centerSites, List.getElem?_map, List.getElem?_zipIdx, faceCenters, List.getElem?_map, hf]
  simp

/-- The apex over a selected face comes after the old vertices and the apexes before it. -/
theorem getElem?_vertices_kis_apex {f : Face} (hf : m.faces[i]? = some f)
    (hselects : selects sides f = true) :
    (m.kisDesign sides).vertices[m.apex sides i]? =
      some (.center i, Point.centroid (f.map m.position)) := by
  have hzip : (m.faces.zip (m.centerSites id))[i]? =
      some (f, .center i, Point.centroid (f.map m.position)) :=
    List.getElem?_zip_eq_some.2 ⟨hf, getElem?_centerSites_of_face hf⟩
  have hplace := getElem?_filter_of_getElem? (p := fun x => selects sides x.1) hzip hselects
  have hrank : (((m.faces.zip (m.centerSites id)).take i).filter fun x => selects sides x.1).length
      = ((m.faces.take i).filter (selects sides)).length := by
    conv_rhs => rw [← map_fst_zip_centerSites m, ← List.map_take, List.filter_map, List.length_map]
    rfl
  have hlength : (m.vertexSites id).length = m.vertexCount := by
    simp [vertexSites, vertexCount]
  rw [kisDesign, apex, ← hlength, List.getElem?_append_right (Nat.le_add_right _ _),
    Nat.add_sub_cancel_left, List.getElem?_map, ← hrank, hplace]
  rfl

theorem indexOf_vertex_kis (hv : v < m.vertexCount) :
    (m.kisDesign sides).indexOf (.vertex v) = v := by
  have hplace : (m.kisDesign sides).vertices[v]? = some (.vertex v, m.vertices[v]) :=
    getElem?_vertices_kis_old (Array.getElem?_eq_getElem hv)
  refine Blueprint.indexOf_eq ?_
  rw [Blueprint.labels_eq (nodup_keys_kis sides m), List.getElem?_map, hplace]
  rfl

theorem indexOf_center_kis {f : Face} (hf : m.faces[i]? = some f)
    (hselects : selects sides f = true) :
    (m.kisDesign sides).indexOf (.center i) = m.apex sides i := by
  refine Blueprint.indexOf_eq ?_
  rw [Blueprint.labels_eq (nodup_keys_kis sides m), List.getElem?_map,
    getElem?_vertices_kis_apex hf hselects]
  rfl

/-- The number of an apex tells the face under it. -/
theorem apex_inj {f g : Face} (hf : m.faces[i]? = some f) (hg : m.faces[j]? = some g)
    (hsf : selects sides f = true) (hsg : selects sides g = true)
    (heq : m.apex sides i = m.apex sides j) : i = j := by
  have hi := getElem?_vertices_kis_apex hf hsf
  have hj := getElem?_vertices_kis_apex hg hsg
  rw [heq, hj, Option.some.injEq, Prod.mk.injEq, Site.center.injEq] at hi
  exact hi.1.symm

/-! ## Faces -/

section Proper

variable (h : m.Proper)
include h

theorem ring_kisOutlines : ∀ o ∈ m.kisOutlines sides, (m.kisDesign sides).net.Ring o.1 o.2 := by
  intro o ho
  rcases mem_kisOutlines.1 ho with ⟨i, u, v, hr, hraised, rfl⟩ | ⟨i, f, hf, hraised, rfl⟩
  · exact Net.Ring.append_comm (s := [Site.vertex u]) (ring_kis_corner h hr hraised)
  · exact ring_kis_face h hf hraised

theorem declared_kisOutlines :
    ∀ o ∈ m.kisOutlines sides, ∀ s ∈ o.2, s ∈ (m.kisDesign sides).labels := by
  intro o ho s hs
  rw [mem_labels_kis]
  rcases mem_kisOutlines.1 ho with ⟨i, u, v, ⟨f, hf, huv⟩, hraised, rfl⟩ | ⟨i, f, hf, -, rfl⟩
  · have hrange := h.inRange f (List.mem_of_getElem? hf)
    have hu := hrange u (mem_left_of_mem_cycleEdges huv)
    have hv := hrange v (mem_right_of_mem_cycleEdges huv)
    simp only [List.mem_cons, List.not_mem_nil, or_false] at hs
    rcases hs with rfl | rfl | rfl
    · exact .inl ⟨v, hv, rfl⟩
    · exact .inr ⟨i, hraised, rfl⟩
    · exact .inl ⟨u, hu, rfl⟩
  · obtain ⟨v, hv, rfl⟩ := List.mem_map.1 hs
    exact .inl ⟨v, h.inRange f (List.mem_of_getElem? hf) v hv, rfl⟩

/-- With numbers for sites the outlines are the new faces. -/
theorem map_kisOutlines :
    (m.kisOutlines sides).map (fun o => o.2.map (m.kisDesign sides).indexOf) =
      m.faces.zipIdx.flatMap fun (f, i) => m.kisOutline sides f i := by
  rw [kisOutlines, List.map_flatMap]
  refine List.flatMap_congr ?_
  rintro ⟨f, i⟩ hf
  rw [List.mem_zipIdx_iff_getElem?] at hf
  dsimp only at hf ⊢
  have hrange := h.inRange f (List.mem_of_getElem? hf)
  unfold kisOutline
  split
  · next hselects =>
    rw [List.map_map]
    refine List.map_congr_left ?_
    rintro ⟨u, v⟩ huv
    have hu := hrange u (mem_left_of_mem_cycleEdges huv)
    have hv := hrange v (mem_right_of_mem_cycleEdges huv)
    simp [indexOf_vertex_kis hu, indexOf_vertex_kis hv, indexOf_center_kis hf hselects]
  · have hsame : (f.map Site.vertex).map (m.kisDesign sides).indexOf = f := by
      rw [List.map_map]
      exact (List.map_congr_left fun v hv => indexOf_vertex_kis (hrange v hv)).trans (List.map_id f)
    rw [List.map_singleton, hsame]

/-- Faces that are not selected stay, and the others give way to triangles. -/
theorem Proper.faces_kis (sides : Option Nat) :
    (m.kisDesign sides).assembleFaces =
      .ok (m.faces.zipIdx.flatMap fun (f, i) => m.kisOutline sides f i) := by
  rw [← map_kisOutlines h]
  refine Blueprint.assembleFaces_eq_ok (flags_kis_outlines sides m) ?_ (ring_kisOutlines h)
    (declared_kisOutlines h)
  exact (perm_kisOutlines sides m).nodup_iff.2 (nodup_kisFaces h)

end Proper

/-! ## Counting -/

/-- Every selected face gives way to as many faces as it has sides. -/
theorem sum_selectedFaces (sides : Option Nat) (faces : List Face) :
    (faces.map fun f => if selects sides f then f.length else 1).sum +
        (faces.filter (selects sides)).length =
      faces.length + ((faces.filter (selects sides)).map List.length).sum := by
  induction faces with
  | nil => rfl
  | cons f faces ih =>
    simp only [List.filter_cons, List.map_cons, List.sum_cons, List.length_cons]
    split
    · simp only [List.length_cons, List.map_cons, List.sum_cons]
      omega
    · omega

theorem kisFaceCount_eq_sum (sides : Option Nat) (m : Mesh) :
    m.kisFaceCount sides = (m.faces.map fun f => if selects sides f then f.length else 1).sum := by
  have hsum := sum_selectedFaces sides m.faces
  have hle : (m.faces.filter (selects sides)).length ≤ m.faces.length := List.length_filter_le _ _
  rw [kisFaceCount, selectedFaces, faceCount]
  omega

theorem faceCount_raisedMesh (sides : Option Nat) (m : Mesh) :
    (m.raisedMesh sides).faceCount =
      (m.faces.map fun f => if selects sides f then f.length else 1).sum := by
  refine length_flatMap_zipIdx (fun f i => ?_) m.faces
  have hedges : f.edges.length = f.length := length_cycleEdges f
  dsimp only [kisOutline]
  split
  · rw [List.length_map, hedges]
  · rfl

theorem vertexCount_raisedMesh (sides : Option Nat) (m : Mesh) :
    (m.raisedMesh sides).vertexCount = m.vertexCount + (m.selectedFaces sides).length := by
  show (m.kisDesign sides).positions.size = _
  rw [Blueprint.size_positions, ← Blueprint.length_labels, length_labels_kis, selectedFaces]

theorem raises_raisedMesh (sides : Option Nat) (m : Mesh) :
    m.Raises sides (m.raisedMesh sides) where
  name := rfl
  vertexCount := vertexCount_raisedMesh sides m
  old v hv := by
    have hp := Array.getElem?_eq_getElem hv
    rw [hp]
    exact Blueprint.getElem?_positions (nodup_keys_kis sides m) (getElem?_vertices_kis_old hp)
  apex i f hf hselects :=
    Blueprint.getElem?_positions (nodup_keys_kis sides m) (getElem?_vertices_kis_apex hf hselects)
  apex_inj _ _ _ _ hf hg hsf hsg heq := apex_inj hf hg hsf hsg heq
  faceCount := by
    rw [faceCount_raisedMesh]
    exact sum_selectedFaces sides m.faces
  faces := rfl

/-! ## The outcome -/

theorem Proper.length_faceLabels_kis (h : m.Proper) (sides : Option Nat) :
    (m.kisDesign sides).faceLabels.length = m.kisFaceCount sides := by
  rw [Blueprint.length_faceLabels, kisFaceCount_eq_sum, ← faceCount_raisedMesh]
  exact (Blueprint.length_of_assembleFaces (h.faces_kis sides)).symm

/-- An apex joins the old vertices for each selected face, which gives way to triangles. -/
theorem Proper.sizeFault?_kisDesign (h : m.Proper) (sides : Option Nat) :
    (m.kisDesign sides).sizeFault? =
      oversize? (m.vertexCount + (m.selectedFaces sides).length) (m.kisFaceCount sides) := by
  rw [Blueprint.sizeFault?_eq, length_labels_kis, h.length_faceLabels_kis, selectedFaces]

theorem Proper.outcome_kis (h : m.Proper) (sides : Option Nat) :
    (m.kis sides).outcome = m.build (Operation.kis sides).text (m.kisDesign sides) := by
  rw [Operation.outcome_kis, Operation.transform, h.inRange.requirePositions_eq_ok]
  rfl

/-- What would be too large is not made. -/
theorem Proper.kis_eq_error (h : m.Proper) {e : MeshError}
    (hsize : oversize? (m.vertexCount + (m.selectedFaces sides).length) (m.kisFaceCount sides) =
      some e) : (m.kis sides).outcome = .error e :=
  (h.outcome_kis sides).trans (build_eq_error ((h.sizeFault?_kisDesign sides).trans hsize))

theorem Proper.kis_eq_ok (h : m.Proper)
    (hsize : oversize? (m.vertexCount + (m.selectedFaces sides).length) (m.kisFaceCount sides) =
      none) : (m.kis sides).outcome = .ok (m.raisedMesh sides) := by
  have hfaces := Blueprint.faces_eq_assembleFaces ((h.sizeFault?_kisDesign sides).trans hsize)
  rw [h.outcome_kis, build, Blueprint.assemble, hfaces, h.faces_kis]
  rfl

/-- Kis warns if there is nothing to raise, and of nothing else. -/
theorem InRange.warnings_kis (h : m.InRange) (sides : Option Nat) :
    (m.kis sides).warnings =
      if m.selectedFaces sides = [] then [.noMatchingFace (sides.getD 0)] else [] := by
  have hnone : m.selectedFaces sides = [] ↔ m.faces.any (selects sides) = false := by
    rw [selectedFaces, List.filter_eq_nil_iff, List.any_eq_false]
  unfold Mesh.kis
  rw [Run.warnings_bind_of_ok rfl, Run.warnings_note,
    Run.warnings_bind_of_ok (h.requirePositions_eq_ok ()), Run.warnings_ofExcept]
  cases hany : m.faces.any (selects sides) with
  | false =>
    rw [if_pos (hnone.2 hany), if_pos (by simp), Run.warnings_bind_of_ok rfl, Run.warnings_warn,
      Run.warnings_ofExcept]
    rfl
  | true =>
    have hsome : m.selectedFaces sides ≠ [] := fun hnil => by simp [hnone.1 hnil] at hany
    rw [if_neg hsome, if_neg (by simp), Run.warnings_ofExcept]
    rfl

section Surface

variable (h : m.Surface)
include h

theorem assembles_raisedMesh (sides : Option Nat) :
    (m.kisDesign sides).Assembles (m.raisedMesh sides) :=
  Blueprint.assembles_of_faces (surface_kis h) (h.toProper.faces_kis sides) rfl

theorem Surface.raisedMesh (sides : Option Nat) : (m.raisedMesh sides).Surface :=
  (assembles_raisedMesh h sides).surface (surface_kis h)

/-- Kis keeps the Euler characteristic of a closed surface. -/
theorem Surface.eulerNumber_raisedMesh (sides : Option Nat) :
    (m.raisedMesh sides).eulerNumber = m.eulerNumber := by
  have hedges := h.two_mul_length_edges
  have hedges' := (h.raisedMesh sides).two_mul_length_edges
  have hbalance := kis_balance sides m.faces
  rw [length_directedEdges] at hedges
  rw [(assembles_raisedMesh h sides).length_directedEdges (surface_kis h) (nodup_kisFlags h),
    length_flags_kis] at hedges'
  rw [eulerNumber, eulerNumber, vertexCount_raisedMesh, faceCount_raisedMesh, selectedFaces,
    faceCount]
  omega

end Surface

/--
Kis puts a pyramid on each selected face of a mesh whose faces are simple and in
range, whatever is selected; it fails only if there are going to be too many
vertices or faces, and then it says so.  It warns just when nothing is selected.
A closed surface stays one, with the same Euler characteristic.
-/
theorem Proper.exists_kis (h : m.Proper) (sides : Option Nat) :
    (∀ e, oversize? (m.vertexCount + (m.selectedFaces sides).length) (m.kisFaceCount sides) =
        some e → (m.kis sides).outcome = .error e) ∧
      (oversize? (m.vertexCount + (m.selectedFaces sides).length) (m.kisFaceCount sides) = none →
        ∃ a, (m.kis sides).outcome = .ok a ∧ m.Raises sides a ∧
          (m.Surface → a.Surface ∧ a.eulerNumber = m.eulerNumber)) ∧
      (m.kis sides).warnings =
        if m.selectedFaces sides = [] then [.noMatchingFace (sides.getD 0)] else [] :=
  ⟨fun _ hsize => h.kis_eq_error hsize,
    fun hsize => ⟨m.raisedMesh sides, h.kis_eq_ok hsize, m.raises_raisedMesh sides,
      fun hsurface => ⟨hsurface.raisedMesh sides, hsurface.eulerNumber_raisedMesh sides⟩⟩,
    h.inRange.warnings_kis sides⟩

/-- On the prism with five sides the two pentagons give way to ten triangles. -/
theorem Proper.exists_kis_prism_five :
    (prism 5).Proper ∧ (prism 5).Surface ∧
      ∃ a, ((prism 5).kis (some 5)).outcome = .ok a ∧ (prism 5).Raises (some 5) a ∧
        a.vertexCount = 12 ∧ a.faceCount = 15 ∧ ((prism 5).kis (some 5)).warnings = [] ∧
          a.Surface ∧ a.eulerNumber = 2 := by
  have hspherical : (prism 5).Spherical := spherical_prism (by decide)
  have hselected : ((prism 5).selectedFaces (some 5)).map List.length = [5, 5] := by decide
  have hcount : ((prism 5).selectedFaces (some 5)).length = 2 := by
    simpa using congrArg List.length hselected
  have hfaceCount : (prism 5).faceCount = 7 := by decide
  obtain ⟨-, hbuilt, hwarnings⟩ := Proper.exists_kis hspherical.toProper (some 5)
  obtain ⟨a, ha, hraises, hclosed⟩ := hbuilt (by
    rw [kisFaceCount, hselected, hcount, hfaceCount, vertexCount_prism]
    decide)
  obtain ⟨hsurface, heuler⟩ := hclosed hspherical.toSurface
  have hfaces := hraises.faceCount
  have hformula := hspherical.euler_formula
  refine ⟨hspherical.toProper, hspherical.toSurface, a, ha, hraises, ?_, ?_, ?_, hsurface, ?_⟩
  · rw [hraises.vertexCount, vertexCount_prism, hcount]
  · rw [hselected, hcount, hfaceCount] at hfaces
    simpa using hfaces
  · rw [hwarnings, if_neg fun hnil => by simp [hnil] at hcount]
  · rw [heuler, eulerNumber]
    omega

/-- A prism that is small enough itself: with an apex over each of its faces it would not be. -/
theorem Proper.kis_outgrows :
    (prism 3333333).Proper ∧ (prism 3333333).WithinLimits ∧
      ((prism 3333333).kis none).outcome = .error (.tooManyVertices 10000001 maxVertices) := by
  have hproper : (prism 3333333).Proper := (spherical_prism (by decide)).toProper
  have hvertices : (prism 3333333).vertexCount = 6666666 := vertexCount_prism _
  have hfaces : (prism 3333333).faceCount = 3333335 := faceCount_prism _
  have hselected : ((prism 3333333).selectedFaces none).length = 3333335 := by
    have hall : (prism 3333333).selectedFaces none = (prism 3333333).faces :=
      List.filter_eq_self.2 fun _ _ => rfl
    rw [hall]
    exact hfaces
  refine ⟨hproper, ⟨?_, ?_⟩, hproper.kis_eq_error ?_⟩
  · rw [hvertices]
    decide
  · rw [hfaces]
    decide
  · rw [hvertices, hselected]
    exact oversize?_of_vertices (by decide)

end Mesh

end Polyhedra
