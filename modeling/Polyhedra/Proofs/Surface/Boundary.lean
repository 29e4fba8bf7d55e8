import Polyhedra.Proofs.Surface.Ambo
import Polyhedra.Proofs.Surface.Families
import Polyhedra.Proofs.Surface.Gyro
import Polyhedra.Proofs.Surface.Ownership
import Polyhedra.Proofs.Surface.Propellor

/-!
# Open meshes

No operator looks for edges that only one face has, but each of them fails on a mesh
with such an edge, and on no other mesh with simple faces and single directed edges;
nothing is assumed of the faces at a vertex.  The point that gyro and propellor take
from the opposite edge is never declared.  Ambo declares a midpoint where its edge is
run through upwards, so it is a downward edge that is found out.  But every vertex is
left by as many directed edges as come to it; if those that leave are paired then
so are those that come (`Mesh.EdgesOnce.paired_into`), and from an open edge one can
go on along open edges, which cannot lead upwards for ever
(`Mesh.Proper.edgesPaired_of_downwards`).

Taking the dual looks for the opposite edges first, and names the first that is
missing (`Mesh.firstOpenEdge?`).

## Main results

* `Mesh.Proper.edgesPaired_of_downwards` — if no downward edge is open then none is.
* `Mesh.InRange.dual_eq_missing_iff` — which missing edge the dual names.
* `Mesh.Proper.rejects_open` — operators fail just on open meshes.
-/

namespace Polyhedra

theorem Blueprint.exists_assemble_iff {V F : Type} [BEq V] [Hashable V] [BEq F] [Hashable F]
    {b : Blueprint V F} {name : Text} :
    (∃ m, b.assemble name = .ok m) ↔
      (∃ fs, b.assembleFaces = .ok fs) ∧ b.sizeFault? = none := by
  constructor
  · rintro ⟨m, hm⟩
    obtain ⟨fs, hfs, -⟩ := Except.map_eq_ok.1 hm
    obtain ⟨hsize, hassemble⟩ := faces_eq_ok_iff_assembleFaces.1 hfs
    exact ⟨⟨fs, hassemble⟩, hsize⟩
  · rintro ⟨⟨fs, hassemble⟩, hsize⟩
    have hfs := faces_eq_ok_iff_assembleFaces.2 ⟨hsize, hassemble⟩
    exact ⟨_, Except.map_eq_ok.2 ⟨fs, hfs, rfl⟩⟩

namespace Mesh

/-- The first directed edge, face after face, along which no face runs the other way. -/
def firstOpenEdge? (m : Mesh) : Option (Nat × Nat) :=
  m.directedEdges.find? fun e => !m.directedEdges.contains e.swap

variable {m : Mesh} {i u v w : Nat} {p : Patch} {s t : Site}

theorem exists_firstOpenEdge?_iff : (∃ e, m.firstOpenEdge? = some e) ↔ ¬ m.EdgesPaired := by
  rw [firstOpenEdge?, ← Option.isSome_iff_exists, List.find?_isSome]
  simp [EdgesPaired]

/-! ## As many edges leave a vertex as come to it -/

/-- A cycle leaves each of its vertices as often as it comes there, and so do all faces. -/
theorem perm_ends (m : Mesh) :
    (m.directedEdges.map Prod.fst).Perm (m.directedEdges.map Prod.snd) := by
  rw [directedEdges, List.map_flatMap, List.map_flatMap]
  refine List.Perm.flatMap_left _ fun f _ => ?_
  rw [Face.edges, map_snd_cycleEdges]
  exact perm_map_fst_cycleEdges f

/-- If all edges that leave a vertex are paired then so are those that come to it. -/
theorem EdgesOnce.paired_into (h : m.EdgesOnce)
    (hout : ∀ w, (v, w) ∈ m.directedEdges → (w, v) ∈ m.directedEdges)
    (huv : (u, v) ∈ m.directedEdges) : (v, u) ∈ m.directedEdges := by
  let outs := (m.directedEdges.filter fun e => e.1 = v).map Prod.swap
  let ins := m.directedEdges.filter fun e => e.2 = v
  have hnodup : outs.Nodup := (h.filter _).map Prod.swap_injective
  have hsubset : outs ⊆ ins := by
    intro e he
    obtain ⟨⟨x, y⟩, hxy, rfl⟩ := List.mem_map.1 he
    obtain ⟨hmem, hx⟩ := List.mem_filter.1 hxy
    have hxv : x = v := by simpa using hx
    subst hxv
    exact List.mem_filter.2 ⟨hout y hmem, by simp⟩
  have hlength : ins.length = outs.length := by
    have hcount := m.perm_ends.countP_eq (fun x => decide (x = v))
    rw [List.countP_map, List.countP_map, List.countP_eq_length_filter,
      List.countP_eq_length_filter] at hcount
    rw [List.length_map]
    exact hcount.symm
  -- the reversed edges that leave are all that come
  have hperm : outs.Perm ins := (hnodup.subperm hsubset).perm_of_length_le hlength.le
  have hmem : (u, v) ∈ outs := hperm.mem_iff.2 (List.mem_filter.2 ⟨huv, by simp⟩)
  obtain ⟨⟨x, y⟩, hxy, heq⟩ := List.mem_map.1 hmem
  obtain ⟨rfl, rfl⟩ := Prod.mk.inj heq
  exact (List.mem_filter.1 hxy).1

/-- If no downward edge is open then no edge is: the next open one would lie higher up. -/
theorem Proper.edgesPaired_of_downwards (h : m.Proper) (honce : m.EdgesOnce)
    (hdown : ∀ i u v, m.net.Runs i u v → v < u → ∃ j, m.net.Runs j v u) : m.EdgesPaired := by
  -- from the highest vertex down: upward edges lead to vertices that are done with
  have hout : ∀ n v, m.vertexCount ≤ v + n →
      ∀ w, (v, w) ∈ m.directedEdges → (w, v) ∈ m.directedEdges := by
    intro n
    induction n with
    | zero =>
      intro v hv w hvw
      obtain ⟨i, hr⟩ := mem_directedEdges.1 hvw
      have hlt := h.isVertex hr
      omega
    | succ n ih =>
      intro v hv w hvw
      obtain ⟨i, hr⟩ := mem_directedEdges.1 hvw
      rcases Nat.lt_or_gt_of_ne (h.ringed.ne hr) with hlt | hlt
      · exact honce.paired_into (ih w (by omega)) hvw
      · exact mem_directedEdges.2 (hdown i v w hr hlt)
  rintro ⟨v, w⟩ hvw
  exact hout m.vertexCount v (Nat.le_add_left _ _) w hvw

/-! ## Ambo -/

section Ambo

variable (h : m.Proper)
include h

/-- Between paired edges a new face comes to each middle once, and goes on from it. -/
theorem circulates_ambo (honce : m.EdgesOnce) (hpaired : m.EdgesPaired)
    (hr : m.amboDesign.net.Runs p s t) : m.amboDesign.net.Circulates p := by
  have once := (edgesOnce_iff h.simple).1 honce
  obtain ⟨i, u, v, w, hc, ⟨rfl, -⟩ | ⟨rfl, -⟩⟩ := (runs_ambo h.simple).1 hr
  · obtain ⟨f, hf, -⟩ := hc.enters
    exact (ring_ambo_face h hf).circulates
  · refine ⟨fun s t t' ht ht' => ?_, fun s s' t hs hs' => ?_, fun s t hst => ?_⟩
    · obtain ⟨i, u, w, hc, rfl, rfl⟩ := (runs_ambo_vertex h).1 ht
      obtain ⟨j, x, y, hc', heq, rfl⟩ := (runs_ambo_vertex h).1 ht'
      obtain rfl := Site.middle_left_cancel heq
      obtain rfl := once i j v w hc.leaves hc'.leaves
      rw [h.ringed.left_unique hc.enters hc'.enters]
    · obtain ⟨i, u, w, hc, rfl, rfl⟩ := (runs_ambo_vertex h).1 hs
      obtain ⟨j, x, y, hc', rfl, heq⟩ := (runs_ambo_vertex h).1 hs'
      rw [Site.middle_comm u v, Site.middle_comm x v] at heq
      obtain rfl := Site.middle_left_cancel heq
      obtain rfl := once i j u v hc.enters hc'.enters
      rw [h.ringed.right_unique hc.leaves hc'.leaves]
    · obtain ⟨i, u, w, hc, -, rfl⟩ := (runs_ambo_vertex h).1 hst
      obtain ⟨j, hj⟩ := hpaired.exists_runs hc.enters
      obtain ⟨x, hx⟩ := h.ringed.exists_enters hj
      exact ⟨.middle x v, (runs_ambo_vertex h).2 ⟨j, x, u, hx, Site.middle_comm u v, rfl⟩⟩

/-- If the faces of ambo are assembled then no downward edge is open. -/
theorem runs_back_of_faces_ambo {fs : List Face} (hfs : m.amboDesign.assembleFaces = .ok fs)
    (hr : m.net.Runs i u v) (hlt : v < u) : ∃ j, m.net.Runs j v u := by
  obtain ⟨f, hf, huv⟩ := hr
  have hmiddle : Site.middle u v ∈ m.amboDesign.labels :=
    Blueprint.mem_labels_of_ring hfs (ring_ambo_face h hf) (List.mem_map.2 ⟨(u, v), huv, rfl⟩)
  obtain ⟨j, x, y, hxy, hr', heq⟩ := (mem_labels_ambo h).1 hmiddle
  rcases Site.middle_inj.1 heq with ⟨rfl, rfl⟩ | ⟨rfl, rfl⟩
  · omega
  · exact ⟨j, hr'⟩

theorem Proper.exists_ambo_iff (honce : m.EdgesOnce) :
    (∃ a, m.ambo.outcome = .ok a) ↔ m.EdgesPaired ∧ m.amboDesign.sizeFault? = none := by
  rw [h.outcome_ambo]
  refine Blueprint.exists_assemble_iff.trans (and_congr_left fun _ =>
    ⟨fun ⟨fs, hfs⟩ => ?_, fun hpaired => ?_⟩)
  · exact h.edgesPaired_of_downwards honce fun i u v hr hlt => runs_back_of_faces_ambo h hfs hr hlt
  · refine Blueprint.exists_assembleFaces_of_circulates
      (fun p s t hr => circulates_ambo h honce hpaired hr) fun p s t hr => ?_
    obtain ⟨i, u, v, w, hc, ⟨-, rfl, -⟩ | ⟨-, rfl, -⟩⟩ := (runs_ambo h.simple).1 hr
    · exact middle_mem_labels_ambo h hpaired hc.enters
    · exact middle_mem_labels_ambo h hpaired hc.leaves

end Ambo

/-! ## Gyro and propellor -/

section Points

variable (h : m.Proper)
include h

theorem Proper.exists_gyro_iff :
    (∃ a, m.gyro.outcome = .ok a) ↔ m.EdgesPaired ∧ m.gyroDesign.sizeFault? = none := by
  rw [h.outcome_gyro]
  refine Blueprint.exists_assemble_iff.trans (and_congr_left fun _ =>
    (Blueprint.exists_assembleFaces_iff (ringed_gyro h)).trans ?_)
  refine ⟨fun hdeclared => ?_, fun hpaired p s t => mem_labels_of_runs_gyro h hpaired⟩
  rintro ⟨u, v⟩ huv
  obtain ⟨i, hr⟩ := mem_directedEdges.1 huv
  obtain ⟨w, hc⟩ := h.ringed.exists_leaves hr
  have hrun : m.gyroDesign.net.Runs (.corner i u) (.edge v u) (.vertex v) :=
    ((ring_gyro h hc).runs_iff _ _).2 (by simp)
  have hback : ∃ j, m.net.Runs j v u := by
    simpa [mem_labels_gyro h] using hdeclared _ _ _ hrun
  exact mem_directedEdges.2 hback

theorem Proper.exists_propellor_iff :
    (∃ a, m.propellor.outcome = .ok a) ↔ m.EdgesPaired ∧ m.propellorDesign.sizeFault? = none := by
  rw [h.outcome_propellor]
  refine Blueprint.exists_assemble_iff.trans (and_congr_left fun _ =>
    (Blueprint.exists_assembleFaces_iff (ringed_propellor h)).trans ?_)
  refine ⟨fun hdeclared => ?_, fun hpaired p s t => mem_labels_of_runs_propellor h hpaired⟩
  rintro ⟨u, v⟩ huv
  obtain ⟨i, hr⟩ := mem_directedEdges.1 huv
  obtain ⟨w, hc⟩ := h.ringed.exists_leaves hr
  have hrun : m.propellorDesign.net.Runs (.corner i v) (.edge v u) (.vertex v) :=
    ((ring_propellor_corner h hc).runs_iff _ _).2 (by simp)
  have hback : ∃ j, m.net.Runs j v u := by
    simpa [mem_labels_propellor h] using hdeclared _ _ _ hrun
  exact mem_directedEdges.2 hback

end Points

/-! ## The dual -/

/-- Some face is found along just the directed edges. -/
theorem isSome_faceAlong {e : Nat × Nat} :
    (faceAlong (edgesWithFace m.faces))[e]?.isSome = true ↔ e ∈ m.directedEdges := by
  rw [← Std.HashMap.mem_iff_isSome_getElem?, faceAlong, mem_lastByLabel, map_fst_edgesWithFace]

/-- The flags of the dual cannot be made if some edge is open, and the first one is named. -/
theorem dualFlags_eq_error_iff {err : MeshError} :
    dualFlags m.faces = .error err ↔
      ∃ e, m.firstOpenEdge? = some e ∧ .missingOppositeEdge e.1 e.2 = err := by
  have hfirst : m.firstOpenEdge? =
      ((edgesWithFace m.faces).find? fun x => !m.directedEdges.contains x.1.swap).map Prod.fst := by
    rw [firstOpenEdge?]
    conv_lhs => rw [← map_fst_edgesWithFace m, List.find?_map]
    rw [map_fst_edgesWithFace]
    rfl
  refine (mapM_eq_error_iff_find? (fun x => !m.directedEdges.contains x.1.swap)
    (fun x => .missingOppositeEdge x.1.1 x.1.2) ?_ ?_).trans ?_
  · rintro ⟨⟨u, v⟩, i⟩ hclosed
    obtain ⟨k, hk⟩ := Option.isSome_iff_exists.1 (isSome_faceAlong.2 (by simpa using hclosed))
    exact ⟨⟨u, k, i⟩, by simp [hk]⟩
  · rintro ⟨⟨u, v⟩, i⟩ hopen
    have hnone : (faceAlong (edgesWithFace m.faces))[(v, u)]? = none := by
      rw [← Option.not_isSome_iff_eq_none, isSome_faceAlong]
      simpa using hopen
    simp [hnone]
  · rw [hfirst]
    constructor
    · rintro ⟨x, hx, heq⟩
      exact ⟨x.1, by rw [hx]; rfl, heq⟩
    · rintro ⟨e, he, heq⟩
      obtain ⟨x, hx, rfl⟩ := Option.map_eq_some_iff.1 he
      exact ⟨x, hx, heq⟩

/-- The dual names the first open edge, and names an edge for no other reason. -/
theorem InRange.dual_eq_missing_iff (h : m.InRange) :
    m.dual = .error (.missingOppositeEdge u v) ↔ m.firstOpenEdge? = some (u, v) := by
  have hflags : m.dual = .error (.missingOppositeEdge u v) ↔
      dualFlags m.faces = .error (.missingOppositeEdge u v) := by
    constructor
    · intro hdual
      cases hb : dualBlueprint m.faces with
      | ok b => simpa using dual_eq_error_of_blueprint h hb hdual
      | error err =>
        rw [dual, dualFaces, hb] at hdual
        obtain rfl := Except.error.inj hdual
        exact Except.map_eq_error.1 hb
    · intro hflags
      rw [dual, dualFaces, dualBlueprint, hflags]
      rfl
  rw [hflags, dualFlags_eq_error_iff]
  simp

/-! ## The outcome -/

/--
On a mesh with simple faces and no directed edge in two of them, ambo, gyro and
propellor succeed if every edge is paired and they do not lay out too much, and not
otherwise; too much is reported as such, whether edges are paired or not.  The dual
fails for want of an opposite edge if some edge is open, and not otherwise, and it
names the first open edge.
-/
theorem Proper.rejects_open (h : m.Proper) (honce : m.EdgesOnce) :
    ((∃ a, m.ambo.outcome = .ok a) ↔ m.EdgesPaired ∧ m.amboDesign.sizeFault? = none) ∧
    ((∃ a, m.gyro.outcome = .ok a) ↔ m.EdgesPaired ∧ m.gyroDesign.sizeFault? = none) ∧
    ((∃ a, m.propellor.outcome = .ok a) ↔
      m.EdgesPaired ∧ m.propellorDesign.sizeFault? = none) ∧
    (∀ e, (m.amboDesign.sizeFault? = some e → m.ambo.outcome = .error e) ∧
      (m.gyroDesign.sizeFault? = some e → m.gyro.outcome = .error e) ∧
      (m.propellorDesign.sizeFault? = some e → m.propellor.outcome = .error e)) ∧
    ((∃ u v, m.dual = .error (.missingOppositeEdge u v)) ↔ ¬ m.EdgesPaired) ∧
    ∀ u v, m.dual = .error (.missingOppositeEdge u v) ↔ m.firstOpenEdge? = some (u, v) := by
  refine ⟨h.exists_ambo_iff honce, h.exists_gyro_iff, h.exists_propellor_iff,
    fun e => ⟨h.ambo_eq_error, h.gyro_eq_error, h.propellor_eq_error⟩, ?_,
    fun u v => h.inRange.dual_eq_missing_iff⟩
  simp only [h.inRange.dual_eq_missing_iff, ← exists_firstOpenEdge?_iff, Prod.exists]

/-- The tetrahedron without its last face. -/
def openTetrahedron : Mesh := { tetrahedron with faces := tetrahedron.faces.dropLast }

/-- The open tetrahedron is rejected by all operators, and the dual names its first open edge. -/
theorem Proper.rejects_open_tetrahedron :
    openTetrahedron.Proper ∧ openTetrahedron.EdgesOnce ∧
      (¬ ∃ a, openTetrahedron.ambo.outcome = .ok a) ∧
      (¬ ∃ a, openTetrahedron.gyro.outcome = .ok a) ∧
      (¬ ∃ a, openTetrahedron.propellor.outcome = .ok a) ∧
      openTetrahedron.dual = .error (.missingOppositeEdge 1 2) := by
  have hsimple : ∀ f ∈ openTetrahedron.faces, f.Nodup ∧ 3 ≤ f.length := by decide
  have hproper : openTetrahedron.Proper :=
    ⟨fun f hf => ⟨(hsimple f hf).1, (hsimple f hf).2⟩, by decide⟩
  have honce : openTetrahedron.EdgesOnce := by
    show openTetrahedron.directedEdges.Nodup
    decide
  have hopen : openTetrahedron.firstOpenEdge? = some (1, 2) := by decide
  obtain ⟨hambo, hgyro, hpropellor, -, -, hdual⟩ := Proper.rejects_open hproper honce
  have hunpaired : ¬ openTetrahedron.EdgesPaired := exists_firstOpenEdge?_iff.1 ⟨_, hopen⟩
  exact ⟨hproper, honce, fun ha => hunpaired (hambo.1 ha).1, fun ha => hunpaired (hgyro.1 ha).1,
    fun ha => hunpaired (hpropellor.1 ha).1, (hdual _ _).2 hopen⟩

/-- A closed pyramid that gyro rejects all the same, for the size of what it would make. -/
theorem Proper.gyro_outgrows :
    (pyramid 1666667).Proper ∧ (pyramid 1666667).EdgesOnce ∧ (pyramid 1666667).EdgesPaired ∧
      (pyramid 1666667).gyro.outcome = .error (.tooManyVertices 10000004 maxVertices) := by
  have hspherical : (pyramid 1666667).Spherical := spherical_pyramid (by decide)
  have hsurface := hspherical.toSurface
  have hvertices : (pyramid 1666667).vertexCount = 1666668 := vertexCount_pyramid _
  have hfaces : (pyramid 1666667).faceCount = 1666668 := faceCount_pyramid _
  have hedges : (pyramid 1666667).edges.length = 3333334 := by
    have hformula := hspherical.euler_formula
    omega
  refine ⟨hsurface.toProper, hsurface.edgesOnce, hsurface.edgesPaired,
    hsurface.toProper.gyro_eq_error ?_⟩
  rw [sizeFault?_gyroDesign hsurface, hvertices, hfaces, hedges]
  exact oversize?_of_vertices (by decide)

end Mesh

end Polyhedra
