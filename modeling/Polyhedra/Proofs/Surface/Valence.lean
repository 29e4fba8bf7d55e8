import Polyhedra.Proofs.Surface.Isomorphism

/-!
# Valence

The valence of a vertex is the number of edges at it (`Mesh.valence`).  On a closed
surface it is the length of the star of the vertex, which can be found out from the
net.  So the valences of an assembled mesh, the number of its edges, and its faces
up to where they begin are told by the blueprint.

## Main results

* `Mesh.Surface.valence_eq_length` — as many edges as faces meet at a vertex.
* `Blueprint.Assembles.valence_eq`, `Blueprint.Assembles.two_mul_length_edges` — what
  an assembled surface counts.
* `Blueprint.Assembles.bijOn_indexOf`, `Blueprint.Assembles.bijOn_idxOf` — vertices
  and faces correspond to their labels.
* `Mesh.exists_build` — what a design of a closed surface is built to.
-/

namespace Polyhedra

namespace Mesh

/-- The number of edges at a vertex. -/
def valence (m : Mesh) (v : Nat) : Nat := m.edges.countP fun e => e.1 = v ∨ e.2 = v

variable {m : Mesh} {i u v w : Nat}

theorem undirected_mem_edges (hr : m.net.Runs i u v) : undirected (u, v) ∈ m.edges := by
  rw [edges, mem_sortedPairs]
  exact List.mem_map_of_mem (mem_directedEdges.2 ⟨i, hr⟩)

namespace Surface

variable (h : m.Surface)
include h

/-- The edges at a vertex lead to the ends of its spokes. -/
theorem mem_edges_at_iff {spokes : List Nat} (hs : m.net.Spokes v spokes) {e : Nat × Nat} :
    e ∈ m.edges ∧ (e.1 = v ∨ e.2 = v) ↔ ∃ w ∈ spokes, undirected (v, w) = e := by
  obtain ⟨-, hnet⟩ := surface_iff.1 h
  constructor
  · rintro ⟨he, hend⟩
    obtain ⟨hlt, he'⟩ := h.mem_edges.1 he
    obtain ⟨i, hr⟩ := mem_directedEdges.1 he'
    rcases hend with rfl | rfl
    · refine ⟨e.2, (hs.mem_iff _).2 ⟨i, hr⟩, ?_⟩
      simp [undirected, hlt.le]
    · refine ⟨e.1, (hs.mem_iff _).2 (hnet.paired i _ _ hr), ?_⟩
      simp [undirected, hlt.le]
  · rintro ⟨w, hw, rfl⟩
    obtain ⟨i, hr⟩ := (hs.mem_iff w).1 hw
    refine ⟨undirected_mem_edges hr, ?_⟩
    show min v w = v ∨ max v w = v
    omega

/-- There are as many edges at a vertex as it has spokes. -/
theorem valence_eq_of_spokes {spokes : List Nat} (hs : m.net.Spokes v spokes) :
    m.valence v = spokes.length := by
  have hnodup : (spokes.map fun w => undirected (v, w)).Nodup := by
    refine hs.nodup.map fun w x heq => ?_
    obtain ⟨hmin, hmax⟩ := Prod.mk.inj heq
    omega
  have hedges : (m.edges.filter fun e => e.1 = v ∨ e.2 = v).Nodup :=
    (nodup_sortedPairs _).filter _
  have hperm : (m.edges.filter fun e => e.1 = v ∨ e.2 = v).Perm
      (spokes.map fun w => undirected (v, w)) := by
    refine (List.perm_ext_iff_of_nodup hedges hnodup).2 fun e => ?_
    rw [List.mem_filter, List.mem_map, ← h.mem_edges_at_iff hs, decide_eq_true_iff]
  rw [valence, List.countP_eq_length_filter, hperm.length_eq, List.length_map]

/-- As many edges as faces meet at a vertex. -/
theorem valence_eq_length {around : List Nat} (hstar : m.net.Star v around) :
    m.valence v = around.length := by
  obtain ⟨-, hnet⟩ := surface_iff.1 h
  obtain ⟨around', spokes, hstar', hs, hlength⟩ :=
    hnet.exists_spokes (hnet.isVertex_of_star hstar)
  rw [h.valence_eq_of_spokes hs, hlength, hstar'.length_eq hstar]

end Surface

end Mesh

/-! ## Assembled surfaces -/

namespace Blueprint

variable {V F : Type} [BEq V] [Hashable V] [LawfulBEq V] [BEq F] [Hashable F] [LawfulBEq F]
  {b : Blueprint V F} {m : Mesh}

namespace Assembles

variable (ha : b.Assembles m)
include ha

omit [LawfulBEq V] [LawfulBEq F] in
theorem faceCount_eq : m.faceCount = b.faceLabels.length := ha.2.length_eq.symm

/-- The vertices are numbered one for each label. -/
theorem bijOn_indexOf : Set.BijOn b.indexOf { v | v ∈ b.labels } (Set.Iio m.vertexCount) := by
  refine ⟨fun v hv => ha.renames.isVertex hv, fun v hv w _ heq => indexOf_inj hv heq, ?_⟩
  intro k hk
  obtain ⟨v, hv, heq⟩ := (ha.renames.isVertex_iff k).1 hk
  exact ⟨v, hv, heq⟩

/-- Labels at the end of the list are numbered from its beginning on. -/
theorem bijOn_indexOf_append {front back : List V} (hlabels : b.labels = front ++ back) :
    Set.BijOn b.indexOf { v | v ∈ back } (Set.Ico front.length m.vertexCount) := by
  have hmem : ∀ {v}, v ∈ b.labels ↔ v ∈ front ∨ v ∈ back := by
    intro v
    rw [hlabels, List.mem_append]
  have hnodup : (front ++ back).Nodup := hlabels ▸ b.labels_nodup
  refine ⟨fun v hv => ⟨?_, ha.bijOn_indexOf.mapsTo (hmem.2 (.inr hv))⟩, fun v hv w _ heq => ?_, ?_⟩
  · have hnot : v ∉ front := fun hfront => List.disjoint_of_nodup_append hnodup hfront hv
    rw [indexOf, hlabels, List.idxOf_append_of_notMem hnot]
    exact Nat.le_add_right _ _
  · exact indexOf_inj (hmem.2 (.inr hv)) heq
  · intro k hk
    obtain ⟨v, hv, rfl⟩ := ha.bijOn_indexOf.surjOn hk.2
    refine ⟨v, (hmem.1 hv).resolve_left fun hfront => ?_, rfl⟩
    have hlow := hk.1
    rw [indexOf, hlabels, List.idxOf_append_of_mem hfront] at hlow
    exact absurd (List.idxOf_lt_length_of_mem hfront) (by omega)

omit [LawfulBEq V] in
/-- The faces come one for each label. -/
theorem bijOn_idxOf :
    Set.BijOn b.faceLabels.idxOf { f | f ∈ b.faceLabels } (Set.Iio m.faceCount) := by
  rw [ha.faceCount_eq]
  refine ⟨fun f hf => List.idxOf_lt_length_of_mem hf, fun f hf g _ heq => ?_, fun k hk => ?_⟩
  · exact (List.idxOf_inj hf).1 heq
  · exact ⟨b.faceLabels[k], List.getElem_mem hk, b.nodup_faceLabels.idxOf_getElem k hk⟩

omit [LawfulBEq V] in
/-- The face of a label is its ring, from somewhere on. -/
theorem exists_isRotated {f : F} {ring : List V} (hring : b.net.Ring f ring) :
    ∃ face, m.faces[b.faceLabels.idxOf f]? = some face ∧ (ring.map b.indexOf).IsRotated face := by
  obtain ⟨v, w, hr⟩ := hring.exists_touches
  obtain ⟨ring', hface, hring'⟩ := ha.exists_face (mem_faceLabels.2 ⟨v, w, hr⟩)
  exact ⟨_, hface, (hring.isRotated hring').map b.indexOf⟩

variable (h : b.net.Surface)
include h

/-- The valence of a vertex is the number of labels in its star. -/
theorem valence_eq {v : V} {around : List F} (hstar : b.net.Star v around) :
    m.valence (b.indexOf v) = around.length := by
  have hnew := ha.renames.star h (h.isVertex_of_star hstar) hstar
  rw [(ha.surface h).valence_eq_length hnew, List.length_map]

/-- Every edge is that of two flags. -/
theorem two_mul_length_edges (hnodup : (b.flags.map Flag.edge).Nodup) :
    2 * m.edges.length = b.flags.length :=
  (ha.surface h).two_mul_length_edges.trans (ha.length_directedEdges h hnodup)

end Assembles

end Blueprint

/-- What a design of a closed surface is built to, if it is not too large. -/
theorem Mesh.exists_build (m : Mesh) (operator : Text) {design : Design}
    (h : design.net.Surface) (hsize : design.sizeFault? = none) :
    ∃ a, m.build operator design = .ok a ∧ a.name = operator ++ m.name ∧ design.Assembles a := by
  obtain ⟨a, ha, hassembles⟩ := Blueprint.exists_assembled h hsize (operator ++ m.name)
  exact ⟨a, ha, name_of_build ha, hassembles⟩

end Polyhedra
