import Polyhedra.Proofs.Surface.Designs

/-!
# Ambo

Ambo puts a vertex into the middle of each edge.  A new face goes round the
edges of each old face, and another one round the edges at each old vertex; in
the middle of an edge the two faces and the two ends of the edge take turns.

## Main results

* `Mesh.Spherical.amboDesign` — ambo keeps spherical polyhedra.
* `Mesh.Proper.outcome_ambo` — the outcome is what is built by the design.
-/

namespace Polyhedra

namespace Mesh

theorem mem_amboFlags {i u v w : Nat} {p : Patch} {s t : Site} :
    (⟨p, s, t⟩ : Flag Site Patch) ∈ amboFlags i u v w ↔
      (p = .face i ∧ s = .middle u v ∧ t = .middle v w) ∨
        (p = .vertex v ∧ s = .middle v w ∧ t = .middle u v) := by
  simp [amboFlags]

variable {m : Mesh} {i j u v w x y z : Nat} {p : Patch} {s t : Site}

/-- The new faces run from edge to edge, within an old face or round an old vertex. -/
theorem runs_ambo (hsimple : ∀ f ∈ m.faces, f.Simple) :
    m.amboDesign.net.Runs p s t ↔
      ∃ i u v w, m.net.Corner i u v w ∧
        ((p = .face i ∧ s = .middle u v ∧ t = .middle v w) ∨
          (p = .vertex v ∧ s = .middle v w ∧ t = .middle u v)) := by
  refine (mem_cornerFlags hsimple).trans ?_
  simp only [mem_amboFlags]

/-- In a proper mesh every edge has positions for its ends. -/
theorem Proper.danglingUpwards?_eq_none (h : m.Proper) : m.danglingUpwards? = none := by
  rw [danglingUpwards?, List.findSome?_eq_none_iff]
  intro f hf
  rw [List.findSome?_eq_none_iff]
  rintro ⟨u, v, w⟩ hc
  obtain ⟨i, hi⟩ := List.mem_iff_getElem?.1 hf
  have hcorner : (i, u, v, w) ∈ m.cornersWithFace :=
    List.mem_flatMap.2 ⟨(f, i), List.mem_zipIdx_iff_getElem?.2 hi, List.mem_map_of_mem hc⟩
  have hlt : v < m.vertexCount := h.isVertex ((mem_cornersWithFace h.simple).1 hcorner).leaves
  exact if_neg (by omega)

/-! ## Rings -/

section Proper

variable (h : m.Proper)
include h

theorem runs_ambo_face :
    m.amboDesign.net.Runs (.face i) s t ↔
      ∃ u v w, m.net.Corner i u v w ∧ s = .middle u v ∧ t = .middle v w := by
  rw [runs_ambo h.simple]
  constructor
  · rintro ⟨j, u, v, w, hc, ⟨heq, rfl, rfl⟩ | ⟨heq, -⟩⟩
    · obtain rfl := Patch.face.inj heq
      exact ⟨u, v, w, hc, rfl, rfl⟩
    · simp at heq
  · rintro ⟨u, v, w, hc, rfl, rfl⟩
    exact ⟨i, u, v, w, hc, .inl ⟨rfl, rfl, rfl⟩⟩

theorem runs_ambo_vertex :
    m.amboDesign.net.Runs (.vertex v) s t ↔
      ∃ i u w, m.net.Corner i u v w ∧ s = .middle v w ∧ t = .middle u v := by
  rw [runs_ambo h.simple]
  constructor
  · rintro ⟨i, u, v', w, hc, ⟨heq, -⟩ | ⟨heq, rfl, rfl⟩⟩
    · simp at heq
    · obtain rfl := Patch.vertex.inj heq
      exact ⟨i, u, w, hc, rfl, rfl⟩
  · rintro ⟨i, u, w, hc, rfl, rfl⟩
    exact ⟨i, u, v, w, hc, .inr ⟨rfl, rfl, rfl⟩⟩

theorem touches_ambo_face :
    m.amboDesign.net.Touches (.face i) s ↔ ∃ u v, m.net.Runs i u v ∧ s = .middle u v := by
  constructor
  · rintro ⟨t, ht⟩
    obtain ⟨u, v, w, hc, rfl, -⟩ := (runs_ambo_face h).1 ht
    exact ⟨u, v, hc.enters, rfl⟩
  · rintro ⟨u, v, hr, rfl⟩
    obtain ⟨w, hc⟩ := h.ringed.exists_leaves hr
    exact ⟨.middle v w, (runs_ambo_face h).2 ⟨u, v, w, hc, rfl, rfl⟩⟩

theorem touches_ambo_vertex :
    m.amboDesign.net.Touches (.vertex v) s ↔ ∃ i w, m.net.Runs i v w ∧ s = .middle v w := by
  constructor
  · rintro ⟨t, ht⟩
    obtain ⟨i, u, w, hc, rfl, -⟩ := (runs_ambo_vertex h).1 ht
    exact ⟨i, w, hc.leaves, rfl⟩
  · rintro ⟨i, w, hr, rfl⟩
    obtain ⟨u, hc⟩ := h.ringed.exists_enters hr
    exact ⟨.middle u v, (runs_ambo_vertex h).2 ⟨i, u, w, hc, rfl, rfl⟩⟩

/-- A face goes round the middles of its edges. -/
theorem ring_ambo_face {f : Face} (hf : m.faces[i]? = some f) :
    m.amboDesign.net.Ring (.face i) (f.edges.map fun e => .middle e.1 e.2) := by
  have hface := h.simple f (List.mem_of_getElem? hf)
  have hring := ring_net hf hface
  refine ⟨?_, ?_, fun s t => ?_⟩
  · refine (nodup_cycleEdges hface.nodup).map_on ?_
    rintro ⟨u, v⟩ huv ⟨x, y⟩ hxy heq
    have huv := (hring.runs_iff u v).2 huv
    have hxy := (hring.runs_iff x y).2 hxy
    rcases Site.middle_inj.1 heq with ⟨rfl, rfl⟩ | ⟨rfl, rfl⟩
    · rfl
    · exact absurd hxy (h.ringed.not_back huv)
  · rw [List.length_map, Face.edges, length_cycleEdges]
    exact hface.three_le
  · rw [runs_ambo_face h, mem_cycleEdges_map]
    constructor
    · rintro ⟨u, v, w, hc, rfl, rfl⟩
      refine ⟨(u, v), (v, w), mem_cycleEdges_cycleEdges.2 ⟨u, v, w, ?_, rfl, rfl⟩, rfl, rfl⟩
      exact (mem_cycleCorners_iff hface.nodup).2
        ⟨(hring.runs_iff u v).1 hc.enters, (hring.runs_iff v w).1 hc.leaves⟩
    · rintro ⟨e, e', he, rfl, rfl⟩
      obtain ⟨u, v, w, hcorner, rfl, rfl⟩ := mem_cycleEdges_cycleEdges.1 he
      obtain ⟨huv, hvw⟩ := (mem_cycleCorners_iff hface.nodup).1 hcorner
      exact ⟨u, v, w, ⟨(hring.runs_iff u v).2 huv, (hring.runs_iff v w).2 hvw⟩, rfl, rfl⟩

/-- Midpoints are declared where a face runs along their edge upwards. -/
theorem mem_labels_ambo :
    s ∈ m.amboDesign.labels ↔ ∃ i u v, u < v ∧ m.net.Runs i u v ∧ s = .middle u v := by
  rw [Blueprint.mem_labels, amboDesign, midpointSites, List.mem_map]
  constructor
  · rintro ⟨⟨_, position⟩, hmem, rfl⟩
    obtain ⟨⟨i, u, v, w⟩, hc, heq⟩ := List.mem_filterMap.1 hmem
    have hc := (mem_cornersWithFace h.simple).1 hc
    by_cases hlt : u < v
    · simp only [if_pos hlt, Option.some.injEq, Prod.mk.injEq] at heq
      exact ⟨i, u, v, hlt, hc.enters, heq.1.symm⟩
    · simp [hlt] at heq
  · rintro ⟨i, u, v, hlt, hr, rfl⟩
    obtain ⟨w, hc⟩ := h.ringed.exists_leaves hr
    refine ⟨(.middle u v, _), List.mem_filterMap.2 ⟨(i, u, v, w), ?_, if_pos hlt⟩, rfl⟩
    exact (mem_cornersWithFace h.simple).2 hc

/-- Between paired edges the middle is declared, in whichever direction the edge is named. -/
theorem middle_mem_labels_ambo (hpaired : m.EdgesPaired) (hr : m.net.Runs i u v) :
    .middle u v ∈ m.amboDesign.labels := by
  rcases Nat.lt_or_gt_of_ne (h.ringed.ne hr) with hlt | hlt
  · exact (mem_labels_ambo h).2 ⟨i, u, v, hlt, hr, rfl⟩
  · obtain ⟨j, hj⟩ := hpaired.exists_runs hr
    exact (mem_labels_ambo h).2 ⟨j, v, u, hlt, hj, Site.middle_comm u v⟩

end Proper

section Rings

variable (h : m.Surface)
include h

/-- Round a vertex go the middles of its edges, one spoke after another. -/
theorem ring_ambo_vertex {spokes : List Nat} (hs : m.net.Spokes v spokes) :
    m.amboDesign.net.Ring (.vertex v) (spokes.map (.middle v)) := by
  obtain ⟨-, hnet⟩ := surface_iff.1 h
  refine ⟨?_, ?_, fun s t => ?_⟩
  · exact hs.nodup.map fun _ _ => Site.middle_left_cancel
  · rw [List.length_map]
    exact hs.three_le
  · rw [runs_ambo_vertex h.toProper, mem_cycleEdges_map]
    constructor
    · rintro ⟨i, u, w, hc, rfl, rfl⟩
      exact ⟨w, u, (hs.mem_cycleEdges_iff hnet).2 ⟨i, hc⟩, rfl, Site.middle_comm v u⟩
    · rintro ⟨w, u, hwu, rfl, rfl⟩
      obtain ⟨i, hc⟩ := hs.across w u hwu
      exact ⟨i, u, w, hc, rfl, Site.middle_comm v u⟩

/-- In the middle of an edge the faces on its sides alternate with those at its ends. -/
theorem star_ambo (hr : m.net.Runs i u v) :
    ∃ around, m.amboDesign.net.Star (.middle u v) around ∧ around.length = 4 := by
  obtain ⟨hsimple, hnet⟩ := surface_iff.1 h
  obtain ⟨j, hback⟩ := hnet.paired i u v hr
  obtain ⟨a, ha⟩ := hnet.exists_enters hr
  obtain ⟨b, hb⟩ := hnet.exists_leaves hr
  obtain ⟨c, hc⟩ := hnet.exists_enters hback
  obtain ⟨d, hd⟩ := hnet.exists_leaves hback
  have huv := hnet.ne hr
  have hij : i ≠ j := by
    rintro rfl
    exact hnet.not_back hr hback
  have hcomm := Site.middle_comm u v
  refine ⟨[.face i, .vertex u, .face j, .vertex v], .of_across ?_ ?_ ?_ ?_, rfl⟩
  · simp [huv, hij]
  · simp
  · rintro p ⟨t, ht⟩
    obtain ⟨k, x, y, z, hk, ⟨rfl, heq, -⟩ | ⟨rfl, heq, -⟩⟩ := (runs_ambo hsimple).1 ht
    · rcases Site.middle_inj.1 heq with ⟨rfl, rfl⟩ | ⟨rfl, rfl⟩
      · simp [hnet.once k i u v hk.enters hr]
      · simp [hnet.once k j v u hk.enters hback]
    · rcases Site.middle_inj.1 heq with ⟨rfl, rfl⟩ | ⟨rfl, rfl⟩ <;> simp
  · intro p q hpq
    rw [mem_cycleEdges_four] at hpq
    rcases hpq with ⟨rfl, rfl⟩ | ⟨rfl, rfl⟩ | ⟨rfl, rfl⟩ | ⟨rfl, rfl⟩
    · exact ⟨.middle v b, (runs_ambo_vertex h.toProper).2 ⟨i, u, b, hb, rfl, rfl⟩,
        (runs_ambo_face h.toProper).2 ⟨u, v, b, hb, rfl, rfl⟩⟩
    · exact ⟨.middle a u, (runs_ambo_face h.toProper).2 ⟨a, u, v, ha, rfl, rfl⟩,
        (runs_ambo_vertex h.toProper).2 ⟨i, a, v, ha, rfl, rfl⟩⟩
    · exact ⟨.middle u d, (runs_ambo_vertex h.toProper).2 ⟨j, v, d, hd, rfl, hcomm⟩,
        (runs_ambo_face h.toProper).2 ⟨v, u, d, hd, hcomm, rfl⟩⟩
    · exact ⟨.middle c v, (runs_ambo_face h.toProper).2 ⟨c, v, u, hc, rfl, hcomm⟩,
        (runs_ambo_vertex h.toProper).2 ⟨j, c, u, hc, hcomm, rfl⟩⟩

end Rings

/-! ## The new surface -/

theorem length_flags_ambo (m : Mesh) :
    m.amboDesign.flags.length = 2 * m.directedEdges.length :=
  length_cornerFlags fun _ _ _ _ => rfl

section Surface

variable (h : m.Surface)
include h

/-- The vertices are the middles of the edges. -/
theorem mem_labels_ambo_iff_edges :
    s ∈ m.amboDesign.labels ↔ ∃ e ∈ m.edges, Site.middle e.1 e.2 = s := by
  rw [mem_labels_ambo h.toProper]
  constructor
  · rintro ⟨i, u, v, hlt, hr, rfl⟩
    exact ⟨(u, v), h.mem_edges.2 ⟨hlt, mem_directedEdges.2 ⟨i, hr⟩⟩, rfl⟩
  · rintro ⟨⟨u, v⟩, he, rfl⟩
    obtain ⟨hlt, he⟩ := h.mem_edges.1 he
    obtain ⟨i, hr⟩ := mem_directedEdges.1 he
    exact ⟨i, u, v, hlt, hr, rfl⟩

/-- No two edges have one middle. -/
theorem edge_eq_of_middle_eq {e e' : Nat × Nat} (he : e ∈ m.edges) (he' : e' ∈ m.edges)
    (heq : Site.middle e.1 e.2 = Site.middle e'.1 e'.2) : e = e' := by
  have hlt := (h.mem_edges.1 he).1
  have hlt' := (h.mem_edges.1 he').1
  rcases Site.middle_inj.1 heq with ⟨hfst, hsnd⟩ | ⟨hfst, hsnd⟩
  · exact Prod.ext hfst hsnd
  · omega

theorem length_labels_ambo : m.amboDesign.labels.length = m.edges.length := by
  have hnodup : (m.edges.map fun e => Site.middle e.1 e.2).Nodup :=
    (nodup_sortedPairs _).map_on fun _ he _ he' => edge_eq_of_middle_eq h he he'
  rw [Blueprint.length_labels_eq hnodup, List.length_map]
  intro s
  rw [mem_labels_ambo_iff_edges h, List.mem_map]

theorem nodup_amboFlags : (m.amboDesign.flags.map Flag.edge).Nodup := by
  obtain ⟨hsimple, hnet⟩ := surface_iff.1 h
  refine nodup_cornerFlags hsimple (fun i u v w hc => ?_) fun i u v w j x y z e hc hc' he he' => ?_
  · have huv := hnet.ne hc.enters
    have huw := hc.ne_ends hnet
    simp [amboFlags, Flag.edge, Site.middle_inj, huv, huw]
  · obtain ⟨⟨p, s, t⟩, hflag, rfl⟩ := List.mem_map.1 he
    obtain ⟨⟨q, _, _⟩, hflag', heq⟩ := List.mem_map.1 he'
    obtain ⟨rfl, rfl⟩ := Prod.mk.inj heq
    rw [mem_amboFlags] at hflag hflag'
    clear he he' heq
    -- a corner run through the other way would be that of two faces that share two edges
    rcases hflag with ⟨-, rfl, rfl⟩ | ⟨-, rfl, rfl⟩ <;>
      rcases hflag' with ⟨-, hs, ht⟩ | ⟨-, hs, ht⟩ <;>
      rw [Site.middle_inj] at hs ht <;> grind

/-- There is one face for each old face and one for each old vertex. -/
theorem exists_runs_ambo_iff :
    (∃ s t, m.amboDesign.net.Runs p s t) ↔
      (∃ i < m.faceCount, p = .face i) ∨ ∃ v < m.vertexCount, p = .vertex v := by
  obtain ⟨hsimple, hnet⟩ := surface_iff.1 h
  constructor
  · rintro ⟨s, t, hr⟩
    obtain ⟨i, u, v, w, hc, ⟨rfl, -⟩ | ⟨rfl, -⟩⟩ := (runs_ambo hsimple).1 hr
    · exact .inl ⟨i, lt_faceCount_of_runs hc.enters, rfl⟩
    · exact .inr ⟨v, hnet.isVertex i v w hc.leaves, rfl⟩
  · rintro (⟨i, hi, rfl⟩ | ⟨v, hv, rfl⟩)
    · obtain ⟨u, v, hr⟩ := exists_runs h hi
      exact ⟨_, (touches_ambo_face h.toProper).2 ⟨u, v, hr, rfl⟩⟩
    · obtain ⟨-, spokes, -, hspokes, -⟩ := hnet.exists_spokes hv
      exact (ring_ambo_vertex h hspokes).exists_touches

theorem length_faceLabels_ambo :
    m.amboDesign.faceLabels.length = m.faceCount + m.vertexCount := by
  have hnodup : ((List.range m.faceCount).map Patch.face ++
      (List.range m.vertexCount).map Patch.vertex).Nodup := by
    refine List.Nodup.append ?_ ?_ ?_
    · exact List.nodup_range.map fun _ _ heq => Patch.face.inj heq
    · exact List.nodup_range.map fun _ _ heq => Patch.vertex.inj heq
    · simp [List.disjoint_left]
  rw [Blueprint.length_faceLabels_eq hnodup, List.length_append, List.length_map,
    List.length_range, List.length_map, List.length_range]
  intro p
  rw [exists_runs_ambo_iff h]
  simp [eq_comm]

/-- There is a vertex for each edge, and a face for each face and each vertex. -/
theorem sizeFault?_amboDesign :
    m.amboDesign.sizeFault? = oversize? m.edges.length (m.faceCount + m.vertexCount) := by
  rw [Blueprint.sizeFault?_eq, length_labels_ambo h, length_faceLabels_ambo h]

theorem surface_ambo : m.amboDesign.net.Surface := by
  obtain ⟨hsimple, hnet⟩ := surface_iff.1 h
  have corner := fun {p s t} => (runs_ambo (m := m) (p := p) (s := s) (t := t) hsimple).1
  refine ⟨fun p s t hr => ?_, fun p s t hr => ?_, Blueprint.once_of_nodup (nodup_amboFlags h),
    fun p s t hr => ?_, fun s hs => ?_⟩
  · obtain ⟨i, u, v, w, hc, ⟨-, rfl, -⟩ | ⟨-, rfl, -⟩⟩ := corner hr
    · exact middle_mem_labels_ambo h.toProper h.edgesPaired hc.enters
    · exact middle_mem_labels_ambo h.toProper h.edgesPaired hc.leaves
  · obtain ⟨i, u, v, w, hc, ⟨rfl, -⟩ | ⟨rfl, -⟩⟩ := corner hr
    · obtain ⟨f, hf, -⟩ := hc.enters
      exact ⟨_, ring_ambo_face h.toProper hf⟩
    · obtain ⟨-, spokes, -, hspokes, -⟩ := hnet.exists_spokes (hnet.isVertex i v w hc.leaves)
      exact ⟨_, ring_ambo_vertex h hspokes⟩
  · obtain ⟨i, u, v, w, hc, ⟨rfl, rfl, rfl⟩ | ⟨rfl, rfl, rfl⟩⟩ := corner hr
    · exact ⟨_, (runs_ambo_vertex h.toProper).2 ⟨i, u, w, hc, rfl, rfl⟩⟩
    · exact ⟨_, (runs_ambo_face h.toProper).2 ⟨u, v, w, hc, rfl, rfl⟩⟩
  · obtain ⟨i, u, v, -, hr, rfl⟩ := (mem_labels_ambo h.toProper).1 hs
    exact (star_ambo h hr).imp fun _ => And.left

end Surface

/-! ## Shared sites -/

section Meet

/-- The middles of two edges of a face at one of its vertices are those of a corner. -/
theorem corner_of_middles {N : Net Nat Nat} (h : N.Surface) (hst : s ≠ t) (hr : N.Runs i x y)
    (hs : s = .middle x y) (hv : v = x ∨ v = y) (hr' : N.Runs i u w) (ht : t = .middle u w)
    (hv' : v = u ∨ v = w) :
    ∃ a b, N.Corner i a v b ∧ ((s = .middle a v ∧ t = .middle v b) ∨
      (t = .middle a v ∧ s = .middle v b)) := by
  rcases hv with rfl | rfl <;> rcases hv' with rfl | rfl
  · rw [h.right_unique hr hr'] at hs
    exact absurd (hs.trans ht.symm) hst
  · exact ⟨u, y, ⟨hr', hr⟩, .inr ⟨ht, hs⟩⟩
  · exact ⟨x, w, ⟨hr, hr'⟩, .inl ⟨hs, ht⟩⟩
  · rw [h.left_unique hr hr'] at hs
    exact absurd (hs.trans ht.symm) hst

/-- The middle of an edge at a vertex is not at another one but that of an edge between them. -/
theorem middle_eq_of_ends (huv : u ≠ v) (hs : s = .middle u x) (hs' : s = .middle v y) :
    s = .middle u v := by
  rcases Site.middle_inj.1 (hs.symm.trans hs') with ⟨rfl, -⟩ | ⟨-, rfl⟩
  · exact absurd rfl huv
  · exact hs

variable (h : m.Polyhedral)
include h

private theorem ambo_face_meet_vertex (hst : s ≠ t)
    (hs : m.amboDesign.net.Touches (.face i) s) (hs' : m.amboDesign.net.Touches (.vertex v) s)
    (ht : m.amboDesign.net.Touches (.face i) t) (ht' : m.amboDesign.net.Touches (.vertex v) t) :
    ∃ a b, m.net.Corner i a v b ∧ ((s = .middle a v ∧ t = .middle v b) ∨
      (t = .middle a v ∧ s = .middle v b)) := by
  obtain ⟨-, hnet⟩ := polyhedral_iff.1 h
  have hproper := h.toProper
  have ends : ∀ {a b c d}, Site.middle a b = .middle c d → a = c ∨ a = d := fun heq =>
    (Site.middle_inj.1 heq).imp And.left And.left
  obtain ⟨x, y, hr, hs⟩ := (touches_ambo_face hproper).1 hs
  obtain ⟨u, w, hr', ht⟩ := (touches_ambo_face hproper).1 ht
  obtain ⟨_, a, -, hs'⟩ := (touches_ambo_vertex hproper).1 hs'
  obtain ⟨_, b, -, ht'⟩ := (touches_ambo_vertex hproper).1 ht'
  exact corner_of_middles hnet.toSurface hst hr hs (ends (hs'.symm.trans hs)) hr' ht
    (ends (ht'.symm.trans ht))

theorem polyhedral_ambo : m.amboDesign.net.Polyhedral where
  toSurface := surface_ambo h.toSurface
  meet p q s t hpq hst hps hqs hpt hqt := by
    obtain ⟨hsimple, hnet⟩ := polyhedral_iff.1 h
    have hproper := h.toProper
    obtain ⟨_, hr⟩ := id hps
    obtain ⟨_, hr'⟩ := id hqs
    obtain ⟨i, _, u, _, hc, ⟨rfl, -⟩ | ⟨rfl, -⟩⟩ := (runs_ambo hsimple).1 hr <;>
      obtain ⟨j, _, v, _, hc', ⟨rfl, -⟩ | ⟨rfl, -⟩⟩ := (runs_ambo hsimple).1 hr'
    · have hij : i ≠ j := fun heq => hpq (congrArg _ heq)
      have shared : ∀ {s}, m.amboDesign.net.Touches (.face i) s →
          m.amboDesign.net.Touches (.face j) s →
            ∃ a b, m.net.Runs i a b ∧ m.net.Runs j b a ∧ s = .middle a b := by
        intro s hs hs'
        obtain ⟨a, b, hi, rfl⟩ := (touches_ambo_face hproper).1 hs
        obtain ⟨c, d, hj, heq⟩ := (touches_ambo_face hproper).1 hs'
        rcases Site.middle_inj.1 heq with ⟨rfl, rfl⟩ | ⟨rfl, rfl⟩
        · exact absurd (hnet.once i j a b hi hj) hij
        · exact ⟨a, b, hi, hj, rfl⟩
      obtain ⟨a, b, hi, hj, rfl⟩ := shared hps hqs
      obtain ⟨c, d, hi', hj', rfl⟩ := shared hpt hqt
      obtain ⟨rfl, rfl⟩ := hnet.edge_unique hi hj hi' hj'
      exact absurd rfl hst
    · rw [runs_ambo_face hproper, runs_ambo_face hproper]
      obtain ⟨a, b, hcorner, hends⟩ := ambo_face_meet_vertex h hst hps hqs hpt hqt
      exact hends.imp (fun he => ⟨a, v, b, hcorner, he⟩) fun he => ⟨a, v, b, hcorner, he⟩
    · rw [runs_ambo_vertex hproper, runs_ambo_vertex hproper]
      obtain ⟨a, b, hcorner, hends⟩ := ambo_face_meet_vertex h hst hqs hps hqt hpt
      exact hends.symm.imp (fun he => ⟨j, a, b, hcorner, he.symm⟩)
        fun he => ⟨j, a, b, hcorner, he.symm⟩
    · have huv : u ≠ v := fun heq => hpq (congrArg _ heq)
      obtain ⟨_, a, -, hs⟩ := (touches_ambo_vertex hproper).1 hps
      obtain ⟨_, b, -, hs'⟩ := (touches_ambo_vertex hproper).1 hqs
      obtain ⟨_, c, -, ht⟩ := (touches_ambo_vertex hproper).1 hpt
      obtain ⟨_, d, -, ht'⟩ := (touches_ambo_vertex hproper).1 hqt
      exact absurd ((middle_eq_of_ends huv hs hs').trans (middle_eq_of_ends huv ht ht').symm) hst

end Meet

/-- Ambo makes a spherical polyhedron of one. -/
theorem Spherical.amboDesign (h : m.Spherical) : m.amboDesign.Spherical where
  toPolyhedral := polyhedral_ambo h.toPolyhedral
  flags_nodup := nodup_amboFlags h.toSurface
  euler := by
    have heuler := h.euler
    have hedges := h.two_mul_length_edges
    rw [length_labels_ambo h.toSurface, length_faceLabels_ambo h.toSurface,
      length_flags_ambo]
    omega

/-- Ambo is built if every vertex has a position. -/
theorem Proper.outcome_ambo (h : m.Proper) : m.ambo.outcome = m.build ['a'] m.amboDesign := by
  rw [Operation.outcome_ambo, Operation.transform, h.danglingUpwards?_eq_none]

theorem Proper.ambo_eq_error (h : m.Proper) {e : MeshError}
    (hsize : m.amboDesign.sizeFault? = some e) : m.ambo.outcome = .error e :=
  h.outcome_ambo.trans (build_eq_error hsize)

end Mesh

end Polyhedra
