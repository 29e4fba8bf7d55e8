import Polyhedra.Proofs.Construction.Outcome
import Polyhedra.Proofs.Surface.Topology
import Mathlib.Data.List.Perm.Subperm

/-!
# Assembly

A blueprint has a net, with its labels for vertices and faces.  If that net is
the surface of a polyhedron then assembly succeeds unless the blueprint is too
large, and the net of the mesh is the net of the blueprint with labels exchanged
for numbers (`Blueprint.renames`): following the flags of a face leads once round
its ring.

## Main results

* `Blueprint.follow_eq_ok` — following flags reads off a path.
* `Blueprint.exists_assembleFaces` — every face is assembled, as a ring of its label.
* `Blueprint.Spherical.exists_assembled` — a blueprint of a spherical polyhedron
  is assembled to one.
-/

namespace Polyhedra

/-! ## Rings from any vertex on -/

/-- A ring may be cut in two and put together the other way. -/
theorem Net.Ring.append_comm {V F : Type} {N : Net V F} {f : F} {s t : List V}
    (h : N.Ring f (s ++ t)) : N.Ring f (t ++ s) := by
  have hperm : (s ++ t).Perm (t ++ s) := List.perm_append_comm
  refine ⟨hperm.nodup_iff.1 h.nodup, ?_, fun x y => ?_⟩
  · rw [← hperm.length_eq]
    exact h.three_le
  · rw [h.runs_iff, mem_cycleEdges_append_comm]

/-- A ring may be written down from any of its vertices on. -/
theorem Net.Ring.exists_from {V F : Type} {N : Net V F} {f : F} {ring : List V}
    (h : N.Ring f ring) {v : V} (hv : v ∈ ring) : ∃ rest, N.Ring f (v :: rest) := by
  obtain ⟨s, t, rfl⟩ := List.append_of_mem hv
  exact ⟨t ++ s, h.append_comm⟩

/-- Each entry of a cycle is followed by the next one, and the last one by the first. -/
theorem isChain_of_cycleEdges {V : Type} {R : V → V → Prop} {v : V} {rest : List V}
    (h : ∀ x y, (x, y) ∈ cycleEdges (v :: rest) → R x y) :
    (v :: rest).IsChain R ∧ R ((v :: rest).getLast (by simp)) v := by
  constructor
  · refine List.isChain_iff_getElem.2 fun i hi => h _ _ (mem_cycleEdges_iff.2 ⟨i, by omega, ?_, ?_⟩)
    · exact List.getElem?_eq_getElem (by omega)
    · unfold next
      rw [if_neg (by omega)]
      exact List.getElem?_eq_getElem hi
  · refine h _ _ (mem_cycleEdges_iff.2 ⟨rest.length, by simp, ?_, ?_⟩)
    · rw [List.getLast_eq_getElem]
      exact List.getElem?_eq_getElem (by simp)
    · unfold next
      rw [if_pos (by simp)]
      rfl

/-- The edge along which a flag goes. -/
def Flag.edge {V F : Type} (flag : Flag V F) : V × V := (flag.source, flag.target)

/-- The entries that count are among the entries. -/
theorem firstByLabel_subset {K A : Type} [BEq K] [Hashable K] (seen : Std.HashSet K)
    (l : List (K × A)) : firstByLabel seen l ⊆ l := by
  induction l generalizing seen with
  | nil => simp
  | cons entry l ih =>
    obtain ⟨k, a⟩ := entry
    rw [firstByLabel_cons]
    split
    · exact List.subset_cons_of_subset _ (ih seen)
    · exact List.cons_subset_cons _ (ih _)

namespace Blueprint

variable {V F : Type} [BEq V] [Hashable V]

/-- The net that a blueprint describes. -/
def net (b : Blueprint V F) : Net V F where
  IsVertex v := v ∈ b.labels
  Runs f v w := ⟨f, v, w⟩ ∈ b.flags

/-- The number that a vertex label gets. -/
def indexOf (b : Blueprint V F) (v : V) : Nat := b.labels.idxOf v

section Vertices

variable [LawfulBEq V] {b : Blueprint V F} {v w : V}

theorem numbering_eq (hv : v ∈ b.labels) : b.numbering[v]? = some (b.indexOf v) := by
  rw [getElem?_numbering]
  exact List.getElem?_idxOf hv

theorem eq_indexOf_of_numbering {i : Nat} (h : b.numbering[v]? = some i) : i = b.indexOf v := by
  obtain ⟨hi, hlabel⟩ := List.getElem?_eq_some_iff.1 ((getElem?_numbering b v i).1 h)
  rw [← hlabel]
  exact (b.labels_nodup.idxOf_getElem i hi).symm

theorem indexOf_inj (hv : v ∈ b.labels) (h : b.indexOf v = b.indexOf w) : v = w :=
  (List.idxOf_inj hv).1 h

/-- Labels are counted by any list that names each of them once. -/
theorem length_labels_eq {names : List V} (hnodup : names.Nodup)
    (hmem : ∀ v, v ∈ b.labels ↔ v ∈ names) : b.labels.length = names.length :=
  ((List.perm_ext_iff_of_nodup b.labels_nodup hnodup).2 hmem).length_eq

omit [LawfulBEq V] in
/-- If no two flags go along the same edge, an edge lies in one face. -/
theorem once_of_nodup (hnodup : (b.flags.map Flag.edge).Nodup) (f g : F) (v w : V)
    (hf : b.net.Runs f v w) (hg : b.net.Runs g v w) : f = g :=
  congrArg Flag.face (List.inj_on_of_nodup_map hnodup hf hg rfl)

/-- Following flags reads off a path that leads back to its beginning. -/
theorem follow_eq_ok {numbering : Std.HashMap V Nat} {table : Std.HashMap V V} {face steps : Nat}
    {entry : V} {rest : List V} {fuel : Nat} {index : V → Nat}
    (hnumbering : ∀ x ∈ v :: rest, numbering[x]? = some (index x))
    (hchain : (v :: rest).IsChain fun x y => table[x]? = some y)
    (hlast : table[(v :: rest).getLast (by simp)]? = some entry)
    (hentry : entry ∉ rest) (hfuel : rest.length ≤ fuel) :
    follow numbering table face steps entry fuel v = .ok ((v :: rest).map index) := by
  induction rest generalizing v fuel with
  | nil =>
    unfold follow
    rw [hnumbering v (by simp)]
    simp only [List.getLast_singleton] at hlast
    simp [hlast]
  | cons w rest ih =>
    obtain ⟨fuel, rfl⟩ : ∃ n, fuel = n + 1 := ⟨fuel - 1, by simp at hfuel; omega⟩
    rw [List.isChain_cons_cons] at hchain
    have hne : (w == entry) = false := by
      simp only [beq_eq_false_iff_ne]
      rintro rfl
      simp at hentry
    have hrest := ih (fun x hx => hnumbering x (List.mem_cons_of_mem _ hx)) hchain.2
      (by simpa using hlast) (fun h => hentry (List.mem_cons_of_mem _ h)) (by simpa using hfuel)
    unfold follow
    rw [hnumbering v (by simp)]
    simp only [hchain.1, hne, hrest]
    rfl

end Vertices

section Faces

variable [BEq F] [Hashable F]

/-- The face labels, in the order in which they first appear. -/
def faceLabels (b : Blueprint V F) : List F := b.entries.map Prod.fst

omit [BEq V] [Hashable V] in
/-- The faces that are numbered are the faces that count. -/
theorem map_zipIdx_entries (b : Blueprint V F) :
    (b.entries.zipIdx.map fun x => x.1.1) = b.faceLabels := by
  rw [faceLabels]
  conv_rhs => rw [← List.zipIdx_map_fst 0 b.entries, List.map_map]
  rfl

omit [BEq V] [Hashable V] in
theorem length_faceLabels (b : Blueprint V F) : b.faceLabels.length = b.faceCount :=
  List.length_map _

/-- The size of a blueprint is told by its labels. -/
theorem sizeFault?_eq (b : Blueprint V F) :
    b.sizeFault? = oversize? b.labels.length b.faceLabels.length := by
  rw [sizeFault?, length_labels, length_faceLabels]

variable [LawfulBEq F] {b : Blueprint V F} {f : F}

theorem mem_faceLabels : f ∈ b.faceLabels ↔ ∃ v w, b.net.Runs f v w := by
  rw [faceLabels, entries, mem_keys_firstByLabel]
  simp only [List.map_map, List.mem_map, Function.comp_apply, Std.HashSet.not_mem_empty,
    not_false_eq_true, and_true]
  constructor
  · rintro ⟨⟨f, v, w⟩, hmem, rfl⟩
    exact ⟨v, w, hmem⟩
  · rintro ⟨v, w, hmem⟩
    exact ⟨_, hmem, rfl⟩

omit [BEq V] [Hashable V] in
theorem nodup_faceLabels (b : Blueprint V F) : b.faceLabels.Nodup :=
  nodup_keys_firstByLabel _ _

theorem length_faceLabels_eq {names : List F} (hnodup : names.Nodup)
    (hmem : ∀ f, (∃ v w, b.net.Runs f v w) ↔ f ∈ names) :
    b.faceLabels.length = names.length :=
  ((List.perm_ext_iff_of_nodup b.nodup_faceLabels hnodup).2
    fun f => mem_faceLabels.trans (hmem f)).length_eq

omit [LawfulBEq F] in
/-- A face begins with a vertex to which one of its flags leads. -/
theorem runs_of_mem_entries {entry : V} (h : (f, entry) ∈ b.entries) :
    ∃ v, b.net.Runs f v entry := by
  obtain ⟨⟨f, v, w⟩, hmem, heq⟩ := List.mem_map.1 (firstByLabel_subset _ _ h)
  obtain ⟨rfl, rfl⟩ := Prod.mk.inj heq
  exact ⟨v, hmem⟩

variable [LawfulBEq V]

/-- What follows a vertex of a face is what some flag leads to. -/
theorem runs_of_successors {v w : V} (h : (b.successors.getD f ∅)[v]? = some w) :
    b.net.Runs f v w := by
  rw [getElem?_successors] at h
  obtain ⟨flag, hmem, hflag⟩ := List.exists_of_findSome?_eq_some h
  split at hflag
  · next hboth =>
    simp only [Bool.and_eq_true, beq_iff_eq] at hboth
    obtain ⟨rfl, rfl⟩ := hboth
    obtain rfl := Option.some.inj hflag
    exact List.mem_reverse.1 hmem
  · simp at hflag

/-- If there is one way to go then the flags of a face lead from each vertex to the next one. -/
theorem successors_eq (h : b.net.Circulates f) {v w : V} :
    (b.successors.getD f ∅)[v]? = some w ↔ b.net.Runs f v w := by
  refine ⟨runs_of_successors, fun hr => ?_⟩
  cases hfound : (b.successors.getD f ∅)[v]? with
  | none =>
    rw [getElem?_successors, List.findSome?_eq_none_iff] at hfound
    have := hfound _ (List.mem_reverse.2 hr)
    simp at this
  | some w' =>
    rw [h.right_unique v w' w (runs_of_successors hfound) hr]

/-- Flags leave every vertex of the ring. -/
theorem length_le_size_successors {ring : List V} (hring : b.net.Ring f ring) :
    ring.length ≤ (b.successors.getD f ∅).size := by
  rw [← Std.HashMap.length_keys]
  refine (List.subperm_of_subset hring.nodup fun v hv => ?_).length_le
  obtain ⟨w, hw⟩ := hring.touches_iff.2 hv
  rw [Std.HashMap.mem_keys, Std.HashMap.mem_iff_isSome_getElem?,
    (successors_eq hring.circulates).2 hw]
  rfl

/-- A face is assembled from the ring of its label. -/
theorem assembleFace_eq_ok {entry : V} {rest : List V} {face : Nat}
    (hring : b.net.Ring f (entry :: rest)) (hdeclared : ∀ v ∈ entry :: rest, v ∈ b.labels) :
    assembleFace b.numbering (b.successors.getD f ∅) face entry =
      .ok ((entry :: rest).map b.indexOf) := by
  have hsize := length_le_size_successors hring
  obtain ⟨hchain, hlast⟩ := isChain_of_cycleEdges
    (R := fun x y => (b.successors.getD f ∅)[x]? = some y)
    fun x y hxy => (successors_eq hring.circulates).2 ((hring.runs_iff x y).2 hxy)
  refine follow_eq_ok (fun x hx => numbering_eq (hdeclared x hx)) hchain hlast
    (List.nodup_cons.1 hring.nodup).1 ?_
  rw [List.length_cons] at hsize
  omega

/-- Every face is assembled, as a ring of its label. -/
theorem exists_assembleFaces (h : b.net.Surface) :
    ∃ fs, b.assembleFaces = .ok fs ∧
      List.Forall₂ (fun f face => ∃ ring, b.net.Ring f ring ∧ face = ring.map b.indexOf)
        b.faceLabels fs := by
  obtain ⟨fs, hfs, hall⟩ := exists_mapM_eq_ok (l := b.entries.zipIdx)
    (f := fun x => assembleFace b.numbering (b.successors.getD x.1.1 ∅) x.2 x.1.2)
    (P := fun x face => ∃ ring, b.net.Ring x.1.1 ring ∧ face = ring.map b.indexOf) (by
      rintro ⟨⟨f, entry⟩, k⟩ hmem
      have hentry := List.mem_of_getElem? (List.mem_zipIdx_iff_getElem?.1 hmem)
      obtain ⟨v, hr⟩ := runs_of_mem_entries hentry
      obtain ⟨ring, hring⟩ := h.exists_ring f v entry hr
      obtain ⟨rest, hrest⟩ :=
        hring.exists_from (mem_right_of_mem_cycleEdges ((hring.runs_iff _ _).1 hr))
      refine ⟨_, assembleFace_eq_ok hrest fun x hx => ?_, _, hrest, rfl⟩
      obtain ⟨y, hy⟩ := hrest.touches_iff.2 hx
      exact h.isVertex f x y hy)
  refine ⟨fs, hfs, ?_⟩
  rw [← map_zipIdx_entries]
  exact List.forall₂_map_left_iff.2 hall

/-! ## The assembled mesh -/

variable {m : Mesh}

/-- The faces of the mesh are rings of the labels, in order. -/
def Assembles (b : Blueprint V F) (m : Mesh) : Prop :=
  m.vertexCount = b.labels.length ∧
    List.Forall₂ (fun f face => ∃ ring, b.net.Ring f ring ∧ face = ring.map b.indexOf)
      b.faceLabels m.faces

/-- A mesh with the faces and the positions of the blueprint is what it assembles. -/
theorem assembles_of_faces (h : b.net.Surface) (hfaces : b.assembleFaces = .ok m.faces)
    (hvertices : m.vertices = b.positions) : b.Assembles m := by
  obtain ⟨fs, hfs, hall⟩ := exists_assembleFaces h
  obtain rfl := Except.ok.inj (hfs.symm.trans hfaces)
  refine ⟨?_, hall⟩
  rw [Mesh.vertexCount, hvertices, size_positions, length_labels]

theorem exists_assembled (h : b.net.Surface) (hsize : b.sizeFault? = none) (name : Text) :
    ∃ m, b.assemble name = .ok m ∧ b.Assembles m := by
  obtain ⟨fs, hfs, -⟩ := exists_assembleFaces h
  refine ⟨⟨name, fs, b.positions⟩, ?_, assembles_of_faces h hfs rfl⟩
  rw [assemble, faces_eq_assembleFaces hsize, hfs]
  rfl

omit [LawfulBEq V] [LawfulBEq F] in
theorem length_of_assembleFaces {fs : List Face} (hfs : b.assembleFaces = .ok fs) :
    fs.length = b.faceCount := by
  have hlength := (mapM_eq_ok_iff.1 hfs).length_eq
  rw [List.length_zipIdx] at hlength
  exact hlength.symm

omit [LawfulBEq V] [LawfulBEq F] in
/-- Whatever is assembled, it is not too large. -/
theorem withinLimits_of_assemble {name : Text} (hm : b.assemble name = .ok m) :
    m.WithinLimits := by
  obtain ⟨fs, hfs, rfl⟩ := Except.map_eq_ok.1 hm
  obtain ⟨hsize, hassemble⟩ := faces_eq_ok_iff_assembleFaces.1 hfs
  obtain ⟨hvertices, hfaces⟩ := oversize?_eq_none.1 hsize
  exact ⟨b.size_positions.le.trans hvertices, (length_of_assembleFaces hassemble).le.trans hfaces⟩

namespace Assembles

omit [LawfulBEq V] [LawfulBEq F] in
/-- Every face of the mesh is the ring of its label. -/
theorem exists_ring (ha : b.Assembles m) {k : Nat} {face : Face} (hk : m.faces[k]? = some face) :
    ∃ f ring, b.faceLabels[k]? = some f ∧ b.net.Ring f ring ∧ face = ring.map b.indexOf := by
  obtain ⟨hlt, rfl⟩ := List.getElem?_eq_some_iff.1 hk
  have hlt' : k < b.faceLabels.length := by rwa [ha.2.length_eq]
  obtain ⟨ring, hring⟩ := ha.2.get hlt' hlt
  exact ⟨_, ring, List.getElem?_eq_getElem hlt', hring⟩

omit [LawfulBEq V] in
/-- The ring of every label is a face of the mesh. -/
theorem exists_face (ha : b.Assembles m) (hf : f ∈ b.faceLabels) :
    ∃ ring, m.faces[b.faceLabels.idxOf f]? = some (ring.map b.indexOf) ∧ b.net.Ring f ring := by
  have hlt := List.idxOf_lt_length_of_mem hf
  have hlt' : b.faceLabels.idxOf f < m.faces.length := by rwa [← ha.2.length_eq]
  obtain ⟨ring, hring, hface⟩ := ha.2.get hlt hlt'
  refine ⟨ring, ?_, by simpa using hring⟩
  rw [List.getElem?_eq_getElem hlt']
  exact congrArg some hface

omit [LawfulBEq F] in
theorem simple (ha : b.Assembles m) (h : b.net.Surface) : ∀ face ∈ m.faces, face.Simple := by
  intro face hface
  obtain ⟨k, hk⟩ := List.mem_iff_getElem?.1 hface
  obtain ⟨f, ring, -, hring, rfl⟩ := ha.exists_ring hk
  refine ⟨hring.nodup.map_on fun v hv w _ heq => ?_, ?_⟩
  · obtain ⟨x, hx⟩ := hring.touches_iff.2 hv
    exact indexOf_inj (h.isVertex f v x hx) heq
  · rw [List.length_map]
    exact hring.three_le

/-- The net of the mesh is that of the blueprint, with numbers for labels. -/
theorem renames (ha : b.Assembles m) : b.net.Renames m.net b.indexOf b.faceLabels.idxOf where
  isVertex_iff v' := by
    show v' < m.vertexCount ↔ ∃ v, v ∈ b.labels ∧ b.indexOf v = v'
    rw [ha.1]
    constructor
    · exact fun hlt => ⟨_, List.getElem_mem hlt, b.labels_nodup.idxOf_getElem v' hlt⟩
    · rintro ⟨v, hv, rfl⟩
      exact List.idxOf_lt_length_of_mem hv
  runs_iff k v' w' := by
    constructor
    · rintro ⟨face, hk, he⟩
      obtain ⟨f, ring, hf, hring, rfl⟩ := ha.exists_ring hk
      obtain ⟨v, w, hvw, rfl, rfl⟩ := mem_cycleEdges_map.1 he
      obtain ⟨hlt, rfl⟩ := List.getElem?_eq_some_iff.1 hf
      exact ⟨_, v, w, (hring.runs_iff v w).2 hvw, b.nodup_faceLabels.idxOf_getElem k hlt, rfl, rfl⟩
    · rintro ⟨f, v, w, hr, rfl, rfl, rfl⟩
      obtain ⟨ring, hface, hring⟩ := ha.exists_face (mem_faceLabels.2 ⟨v, w, hr⟩)
      exact ⟨_, hface, mem_cycleEdges_map.2 ⟨v, w, (hring.runs_iff v w).1 hr, rfl, rfl⟩⟩
  vertex_inj v w hv _ heq := indexOf_inj hv heq
  face_inj f g v w hf _ heq := by
    obtain ⟨x, hx⟩ := hf
    exact (List.idxOf_inj (mem_faceLabels.2 ⟨v, x, hx⟩)).1 heq

/-- What is assembled from the net of a closed surface is one. -/
theorem surface (ha : b.Assembles m) (h : b.net.Surface) : m.Surface :=
  Mesh.surface_iff.2 ⟨ha.simple h, ha.renames.surface h⟩

/-- The directed edges of the mesh are those of the flags. -/
theorem length_directedEdges (ha : b.Assembles m) (h : b.net.Surface)
    (hnodup : (b.flags.map Flag.edge).Nodup) :
    m.directedEdges.length = b.flags.length := by
  have hperm : m.directedEdges.Perm
      ((b.flags.map Flag.edge).map (Prod.map b.indexOf b.indexOf)) := by
    refine (List.perm_ext_iff_of_nodup (ha.surface h).edgesOnce (hnodup.map_on ?_)).2 ?_
    · rintro ⟨v, w⟩ hvw ⟨x, y⟩ hxy heq
      obtain ⟨⟨f, _, _⟩, hf, heq₁⟩ := List.mem_map.1 hvw
      obtain ⟨rfl, rfl⟩ := Prod.mk.inj heq₁
      obtain ⟨hv, hw⟩ := Prod.mk.inj heq
      rw [indexOf_inj (h.isVertex f _ _ hf) hv, indexOf_inj (h.isVertex_right (f := f) hf) hw]
    · rintro ⟨v', w'⟩
      rw [Mesh.mem_directedEdges, List.map_map, List.mem_map]
      constructor
      · rintro ⟨k, hr'⟩
        obtain ⟨f, v, w, hr, -, rfl, rfl⟩ := (ha.renames.runs_iff _ _ _).1 hr'
        exact ⟨⟨f, v, w⟩, hr, rfl⟩
      · rintro ⟨⟨f, v, w⟩, hr, heq⟩
        obtain ⟨rfl, rfl⟩ := Prod.mk.inj heq
        exact ⟨_, ha.renames.runs (f := f) hr⟩
  simpa using hperm.length_eq

end Assembles

/--
The blueprint describes the surface of a polyhedron with the Euler
characteristic of a sphere, and no two of its flags go along the same edge.
-/
structure Spherical (b : Blueprint V F) : Prop extends b.net.Polyhedral where
  flags_nodup : (b.flags.map Flag.edge).Nodup
  euler : 2 * (b.labels.length + b.faceLabels.length) = b.flags.length + 4

theorem Spherical.exists_assembled (h : b.Spherical) (hsize : b.sizeFault? = none)
    (name : Text) : ∃ m, b.assemble name = .ok m ∧ m.Spherical ∧ m.WithinLimits ∧
      m.vertexCount = b.labels.length ∧ m.faceCount = b.faceLabels.length := by
  obtain ⟨m, hm, ha⟩ := Blueprint.exists_assembled h.toSurface hsize name
  refine ⟨m, hm, ⟨?_, ?_⟩, withinLimits_of_assemble hm, ha.1, ha.2.length_eq.symm⟩
  · exact Mesh.polyhedral_iff.2 ⟨ha.simple h.toSurface, ha.renames.polyhedral h.toPolyhedral⟩
  · rw [ha.length_directedEdges h.toSurface h.flags_nodup, ha.1, Mesh.faceCount,
      ← ha.2.length_eq]
    exact h.euler

end Faces

end Blueprint

end Polyhedra
