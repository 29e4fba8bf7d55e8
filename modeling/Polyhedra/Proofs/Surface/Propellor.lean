import Polyhedra.Proofs.Surface.Designs

/-!
# Propellor

Propellor turns every face inside its outline and lays a quadrilateral into each
corner of the old surface.  Around an old vertex the quadrilaterals follow one
another as the old faces do; at each of the two places on an edge a turned face
meets three quadrilaterals.

## Main results

* `Mesh.Spherical.propellorDesign` — propellor keeps spherical polyhedra.
* `Mesh.Proper.outcome_propellor` — the outcome is what is built by the design.
-/

namespace Polyhedra

namespace Mesh

/-- The quadrilateral at a corner. -/
def propellorRing (u v w : Nat) : List Site := [.edge u v, .edge v u, .vertex v, .edge v w]

@[simp] theorem mem_cycleEdges_propellorRing {u v w : Nat} {s t : Site} :
    (s, t) ∈ cycleEdges (propellorRing u v w) ↔
      (s = .edge v w ∧ t = .edge u v) ∨ (s = .edge u v ∧ t = .edge v u) ∨
        (s = .edge v u ∧ t = .vertex v) ∨ (s = .vertex v ∧ t = .edge v w) :=
  mem_cycleEdges_four

theorem mem_propellorFlags {i u v w : Nat} {p : Patch} {s t : Site} :
    (⟨p, s, t⟩ : Flag Site Patch) ∈ propellorFlags i u v w ↔
      (p = .face i ∧ s = .edge u v ∧ t = .edge v w) ∨
        (p = .corner i v ∧ (s, t) ∈ cycleEdges (propellorRing u v w)) := by
  simp only [propellorFlags, mem_cycleEdges_propellorRing, List.mem_cons, Flag.mk.injEq,
    List.not_mem_nil, or_false]
  tauto

variable {m : Mesh} {i j u v w x y z a b : Nat} {p : Patch} {s t : Site}

theorem runs_propellor (hsimple : ∀ f ∈ m.faces, f.Simple) :
    m.propellorDesign.net.Runs p s t ↔
      ∃ i u v w, m.net.Corner i u v w ∧
        ((p = .face i ∧ s = .edge u v ∧ t = .edge v w) ∨
          (p = .corner i v ∧ (s, t) ∈ cycleEdges (propellorRing u v w))) := by
  refine (mem_cornerFlags hsimple).trans ?_
  simp only [mem_propellorFlags]

/-! ## Rings -/

section Rings

variable (h : m.Proper)
include h

theorem runs_propellor_face :
    m.propellorDesign.net.Runs (.face i) s t ↔
      ∃ u v w, m.net.Corner i u v w ∧ s = .edge u v ∧ t = .edge v w := by
  rw [runs_propellor h.simple]
  constructor
  · rintro ⟨j, u, v, w, hc, ⟨heq, rfl, rfl⟩ | ⟨heq, -⟩⟩
    · obtain rfl := Patch.face.inj heq
      exact ⟨u, v, w, hc, rfl, rfl⟩
    · simp at heq
  · rintro ⟨u, v, w, hc, rfl, rfl⟩
    exact ⟨i, u, v, w, hc, .inl ⟨rfl, rfl, rfl⟩⟩

theorem touches_propellor_face :
    m.propellorDesign.net.Touches (.face i) s ↔ ∃ u v, m.net.Runs i u v ∧ s = .edge u v := by
  constructor
  · rintro ⟨t, ht⟩
    obtain ⟨u, v, w, hc, rfl, -⟩ := (runs_propellor_face h).1 ht
    exact ⟨u, v, hc.enters, rfl⟩
  · rintro ⟨u, v, hr, rfl⟩
    obtain ⟨w, hc⟩ := h.ringed.exists_leaves hr
    exact ⟨.edge v w, (runs_propellor_face h).2 ⟨u, v, w, hc, rfl, rfl⟩⟩

/-- A turned face goes round the edges of the old one. -/
theorem ring_propellor_face {f : Face} (hf : m.faces[i]? = some f) :
    m.propellorDesign.net.Ring (.face i) (f.edges.map fun e => .edge e.1 e.2) := by
  have hface := h.simple f (List.mem_of_getElem? hf)
  have hring := ring_net hf hface
  refine ⟨?_, ?_, fun s t => ?_⟩
  · refine (nodup_cycleEdges hface.nodup).map ?_
    rintro ⟨u, v⟩ ⟨x, y⟩ heq
    obtain ⟨rfl, rfl⟩ := Site.edge.inj heq
    rfl
  · rw [List.length_map, Face.edges, length_cycleEdges]
    exact hface.three_le
  · rw [runs_propellor_face h, mem_cycleEdges_map]
    constructor
    · rintro ⟨u, v, w, hc, rfl, rfl⟩
      refine ⟨(u, v), (v, w), mem_cycleEdges_cycleEdges.2 ⟨u, v, w, ?_, rfl, rfl⟩, rfl, rfl⟩
      exact (mem_cycleCorners_iff hface.nodup).2
        ⟨(hring.runs_iff u v).1 hc.enters, (hring.runs_iff v w).1 hc.leaves⟩
    · rintro ⟨e, e', he, rfl, rfl⟩
      obtain ⟨u, v, w, hcorner, rfl, rfl⟩ := mem_cycleEdges_cycleEdges.1 he
      obtain ⟨huv, hvw⟩ := (mem_cycleCorners_iff hface.nodup).1 hcorner
      exact ⟨u, v, w, ⟨(hring.runs_iff u v).2 huv, (hring.runs_iff v w).2 hvw⟩, rfl, rfl⟩

theorem ring_propellor_corner (hc : m.net.Corner i u v w) :
    m.propellorDesign.net.Ring (.corner i v) (propellorRing u v w) := by
  have huv := h.ringed.ne hc.enters
  have huw := h.ringed.ne_ends hc
  refine ⟨?_, by simp [propellorRing], fun s t => ?_⟩
  · simp [propellorRing, huv, huw, huv.symm]
  · rw [runs_propellor h.simple]
    constructor
    · rintro ⟨j, x, y, z, hc', ⟨heq, -⟩ | ⟨heq, he⟩⟩
      · simp at heq
      · obtain ⟨rfl, rfl⟩ := Patch.corner.inj heq
        obtain ⟨rfl, rfl⟩ := h.ringed.eq_of_middle hc hc'
        exact he
    · exact fun he => ⟨i, u, v, w, hc, .inr ⟨rfl, he⟩⟩

theorem ringed_propellor : m.propellorDesign.net.Ringed := by
  intro p s t hr
  obtain ⟨i, u, v, w, hc, ⟨rfl, -⟩ | ⟨rfl, -⟩⟩ := (runs_propellor h.simple).1 hr
  · obtain ⟨f, hf, -⟩ := hc.enters
    exact ⟨_, ring_propellor_face h hf⟩
  · exact ⟨_, ring_propellor_corner h hc⟩

end Rings

/-! ## Stars -/

section Stars

variable (h : m.Surface)
include h

private theorem runs_quad (hc : m.net.Corner i u v w)
    (he : (s, t) ∈ cycleEdges (propellorRing u v w)) :
    m.propellorDesign.net.Runs (.corner i v) s t :=
  ((ring_propellor_corner h.toProper hc).runs_iff s t).2 he

/-- Around an old vertex the quadrilaterals follow one another as the old faces do. -/
theorem star_propellor_vertex (hv : v < m.vertexCount) :
    ∃ around around', m.net.Star v around ∧ m.propellorDesign.net.Star (.vertex v) around' ∧
      around'.length = around.length := by
  obtain ⟨hsimple, hnet⟩ := surface_iff.1 h
  obtain ⟨around, before, hstar, hbefore, hnext⟩ := hnet.exists_star_before hv
  refine ⟨around, around.map (.corner · v), hstar, .of_across ?_ ?_ ?_ ?_, List.length_map _⟩
  · exact hstar.nodup.map fun _ _ heq => (Patch.corner.inj heq).1
  · rw [List.length_map]
    exact hstar.three_le
  · rintro p ⟨t, ht⟩
    obtain ⟨j, x, y, z, hc, ⟨-, heq, -⟩ | ⟨rfl, he⟩⟩ := (runs_propellor hsimple).1 ht
    · simp at heq
    · rw [mem_cycleEdges_propellorRing] at he
      obtain ⟨rfl, -⟩ : v = y ∧ t = .edge y z := by simpa using he
      exact List.mem_map_of_mem ((hstar.mem_iff j).2 ⟨z, hc.leaves⟩)
  · intro p q hpq
    obtain ⟨i, j, hij, rfl, rfl⟩ := mem_cycleEdges_map.1 hpq
    obtain ⟨hi, hr⟩ := (hnext i j).1 hij
    obtain ⟨w, hc⟩ := hbefore i hi
    obtain ⟨x, hc'⟩ := hnet.exists_enters hr
    exact ⟨.edge v (before i), runs_quad h hc (by simp),
      runs_quad h hc' (by simp)⟩

/-- At a place on an edge a turned face meets three quadrilaterals. -/
theorem star_propellor_edge (hr : m.net.Runs i u v) :
    ∃ around, m.propellorDesign.net.Star (.edge u v) around ∧ around.length = 4 := by
  obtain ⟨hsimple, hnet⟩ := surface_iff.1 h
  obtain ⟨j, hback⟩ := hnet.paired i u v hr
  obtain ⟨w, hc⟩ := hnet.exists_leaves hr
  obtain ⟨a, ha⟩ := hnet.exists_enters hr
  obtain ⟨x, hx⟩ := hnet.exists_leaves hback
  have huv := hnet.ne hr
  have hij : i ≠ j := by
    rintro rfl
    exact hnet.not_back hr hback
  refine ⟨[.face i, .corner i u, .corner j u, .corner i v], .of_across ?_ ?_ ?_ ?_, rfl⟩
  · simp [huv, hij, hij.symm]
  · simp
  · rintro p ⟨t, ht⟩
    obtain ⟨k, b, c, d, hc', ⟨rfl, heq, -⟩ | ⟨rfl, he⟩⟩ := (runs_propellor hsimple).1 ht
    · obtain ⟨rfl, rfl⟩ := Site.edge.inj heq
      rw [hnet.once i k u v hr hc'.enters]
      simp
    · rw [mem_cycleEdges_propellorRing] at he
      simp only [reduceCtorEq, false_and, Site.edge.injEq, or_false] at he
      simp only [List.mem_cons, reduceCtorEq, Patch.corner.injEq, List.not_mem_nil, or_false,
        false_or]
      grind
  · intro p q hpq
    rw [mem_cycleEdges_four] at hpq
    rcases hpq with ⟨rfl, rfl⟩ | ⟨rfl, rfl⟩ | ⟨rfl, rfl⟩ | ⟨rfl, rfl⟩
    · exact ⟨.edge v w, runs_quad h hc (by simp),
        (runs_propellor_face h.toProper).2 ⟨u, v, w, hc, rfl, rfl⟩⟩
    · exact ⟨.edge a u, (runs_propellor_face h.toProper).2 ⟨a, u, v, ha, rfl, rfl⟩,
        runs_quad h ha (by simp)⟩
    · exact ⟨.vertex u, runs_quad h ha (by simp),
        runs_quad h hx (by simp)⟩
    · exact ⟨.edge v u, runs_quad h hx (by simp),
        runs_quad h hc (by simp)⟩

end Stars

/-! ## Shared sites -/

/-- Two sites of a quadrilateral that are no neighbours tell its corner. -/
theorem corner_of_apart_propellorRing {N : Net Nat Nat} (h : N.Surface) (hc : N.Corner i u v w)
    (hc' : N.Corner j x y z) (hst : s ≠ t) (hs : s ∈ propellorRing u v w)
    (hs' : s ∈ propellorRing x y z) (ht : t ∈ propellorRing u v w) (ht' : t ∈ propellorRing x y z)
    (hapart : (s, t) ∉ cycleEdges (propellorRing u v w))
    (hapart' : (t, s) ∉ cycleEdges (propellorRing u v w)) : i = j ∧ v = y := by
  rw [mem_cycleEdges_propellorRing] at hapart hapart'
  simp only [propellorRing, List.mem_cons, List.not_mem_nil, or_false] at hs hs' ht ht'
  rcases hs with rfl | rfl | rfl | rfl <;> grind

/-- Two sites that two quadrilaterals share are neighbours. -/
theorem propellorRing_meet {N : Net Nat Nat} (h : N.Surface) (hc : N.Corner i u v w)
    (hc' : N.Corner j x y z) (hne : Patch.corner i v ≠ .corner j y) (hst : s ≠ t)
    (hs : s ∈ propellorRing u v w) (hs' : s ∈ propellorRing x y z)
    (ht : t ∈ propellorRing u v w) (ht' : t ∈ propellorRing x y z) :
    (s, t) ∈ cycleEdges (propellorRing u v w) ∨ (t, s) ∈ cycleEdges (propellorRing u v w) := by
  by_contra hapart
  rw [not_or] at hapart
  obtain ⟨rfl, rfl⟩ :=
    corner_of_apart_propellorRing h hc hc' hst hs hs' ht ht' hapart.1 hapart.2
  exact hne rfl

/-- A turned face and a quadrilateral share two sites at the corner where both lie at most. -/
theorem propellor_face_meet {N : Net Nat Nat} (h : N.Surface) (hc : N.Corner j x y z)
    (hst : s ≠ t) (hr : N.Runs i u v) (hs : s = .edge u v) (hr' : N.Runs i a b)
    (ht : t = .edge a b) (hs' : s ∈ propellorRing x y z) (ht' : t ∈ propellorRing x y z) :
    i = j ∧ ((s = .edge x y ∧ t = .edge y z) ∨ (t = .edge x y ∧ s = .edge y z)) := by
  simp only [propellorRing, List.mem_cons, List.not_mem_nil, or_false] at *
  grind

/-! ## The new surface -/

theorem mem_labels_propellor (h : m.Proper) :
    s ∈ m.propellorDesign.labels ↔
      (∃ v, v < m.vertexCount ∧ s = .vertex v) ∨ ∃ i u v, m.net.Runs i u v ∧ s = .edge u v := by
  rw [Blueprint.mem_labels, propellorDesign, List.map_append, keys_vertexSites, List.mem_append,
    mem_keys_interiorSites h]
  simp [eq_comm]

theorem length_flags_propellor (m : Mesh) :
    m.propellorDesign.flags.length = 5 * m.directedEdges.length :=
  length_cornerFlags fun _ _ _ _ => rfl

/-- Between paired edges turned faces and quadrilaterals go round sites of the new surface. -/
theorem mem_labels_of_runs_propellor (h : m.Proper) (hpaired : m.EdgesPaired)
    (hr : m.propellorDesign.net.Runs p s t) : s ∈ m.propellorDesign.labels := by
  refine (mem_labels_propellor h).2 ?_
  obtain ⟨i, u, v, w, hc, ⟨-, rfl, -⟩ | ⟨-, he⟩⟩ := (runs_propellor h.simple).1 hr
  · exact .inr ⟨i, u, v, hc.enters, rfl⟩
  · obtain ⟨j, hj⟩ := hpaired.exists_runs hc.enters
    have hs := mem_left_of_mem_cycleEdges he
    simp only [propellorRing, List.mem_cons, List.not_mem_nil, or_false] at hs
    rcases hs with rfl | rfl | rfl | rfl
    · exact .inr ⟨i, u, v, hc.enters, rfl⟩
    · exact .inr ⟨j, v, u, hj, rfl⟩
    · exact .inl ⟨v, h.isVertex hc.leaves, rfl⟩
    · exact .inr ⟨i, v, w, hc.leaves, rfl⟩

section Surface

variable (h : m.Surface)
include h

theorem nodup_keys_propellor : (m.propellorDesign.vertices.map Prod.fst).Nodup := by
  rw [propellorDesign, List.map_append, keys_vertexSites]
  refine List.Nodup.append ?_ (nodup_keys_interiorSites h) ?_
  · exact List.nodup_range.map fun _ _ heq => Site.vertex.inj heq
  · rw [List.disjoint_left]
    intro s hs hs'
    obtain ⟨i, u, v, -, rfl⟩ := (mem_keys_interiorSites h.toProper).1 hs'
    simp at hs

theorem length_labels_propellor :
    m.propellorDesign.labels.length = m.vertexCount + m.directedEdges.length := by
  rw [Blueprint.length_labels_eq (nodup_keys_propellor h) fun _ => Blueprint.mem_labels]
  simp [propellorDesign, vertexSites, interiorSites, vertexCount, length_cornersWithFace]

theorem nodup_propellorFlags : (m.propellorDesign.flags.map Flag.edge).Nodup := by
  obtain ⟨hsimple, hnet⟩ := surface_iff.1 h
  refine nodup_cornerFlags hsimple (fun i u v w hc => ?_) fun i u v w j x y z e hc hc' he he' => ?_
  · have huv := hnet.ne hc.enters
    have huw := hc.ne_ends hnet
    simp [propellorFlags, Flag.edge, huv, huw, huw.symm]
  · obtain ⟨⟨p, s, t⟩, hflag, rfl⟩ := List.mem_map.1 he
    obtain ⟨⟨q, _, _⟩, hflag', heq⟩ := List.mem_map.1 he'
    obtain ⟨rfl, rfl⟩ := Prod.mk.inj heq
    rw [mem_propellorFlags, mem_cycleEdges_propellorRing] at hflag hflag'
    clear he he' heq
    rcases hflag with ⟨rfl, rfl, rfl⟩ | ⟨rfl, ⟨rfl, rfl⟩ | ⟨rfl, rfl⟩ | ⟨rfl, rfl⟩ | ⟨rfl, rfl⟩⟩ <;>
      grind

/-- There is one turned face for each old face and one quadrilateral for each corner. -/
theorem exists_runs_propellor_iff :
    (∃ s t, m.propellorDesign.net.Runs p s t) ↔
      (∃ i < m.faceCount, p = .face i) ∨ ∃ i u v w, m.net.Corner i u v w ∧ p = .corner i v := by
  constructor
  · rintro ⟨s, t, hr⟩
    obtain ⟨i, u, v, w, hc, ⟨rfl, -⟩ | ⟨rfl, -⟩⟩ := (runs_propellor h.simple).1 hr
    · exact .inl ⟨i, lt_faceCount_of_runs hc.enters, rfl⟩
    · exact .inr ⟨i, u, v, w, hc, rfl⟩
  · rintro (⟨i, hi, rfl⟩ | ⟨i, u, v, w, hc, rfl⟩)
    · obtain ⟨u, v, hr⟩ := exists_runs h hi
      exact ⟨_, (touches_propellor_face h.toProper).2 ⟨u, v, hr, rfl⟩⟩
    · exact (ring_propellor_corner h.toProper hc).exists_touches

theorem length_faceLabels_propellor :
    m.propellorDesign.faceLabels.length = m.faceCount + m.directedEdges.length := by
  obtain ⟨hsimple, hnet⟩ := surface_iff.1 h
  have hnodup : ((List.range m.faceCount).map Patch.face ++
      m.cornersWithFace.map fun c : Nat × Nat × Nat × Nat => Patch.corner c.1 c.2.2.1).Nodup := by
    refine List.Nodup.append ?_ ((nodup_cornersWithFace hsimple).map_on ?_) ?_
    · exact List.nodup_range.map fun _ _ heq => Patch.face.inj heq
    · rintro ⟨i, u, v, w⟩ hc ⟨j, x, y, z⟩ hc' heq
      obtain ⟨rfl, rfl⟩ := Patch.corner.inj heq
      obtain ⟨rfl, rfl⟩ := ((mem_cornersWithFace hsimple).1 hc).eq_of_middle hnet
        ((mem_cornersWithFace hsimple).1 hc')
      rfl
    · simp [List.disjoint_left]
  rw [Blueprint.length_faceLabels_eq hnodup, List.length_append, List.length_map,
    List.length_range, List.length_map, length_cornersWithFace]
  intro p
  rw [exists_runs_propellor_iff h]
  simp [mem_cornersWithFace hsimple, eq_comm]

/-- Two points on each edge join the old vertices, and a blade at each corner the old faces. -/
theorem sizeFault?_propellorDesign :
    m.propellorDesign.sizeFault? =
      oversize? (m.vertexCount + 2 * m.edges.length) (m.faceCount + 2 * m.edges.length) := by
  rw [Blueprint.sizeFault?_eq, length_labels_propellor h, length_faceLabels_propellor h,
    h.two_mul_length_edges]

/-- Across each side of a turned face or a quadrilateral there is another patch. -/
theorem paired_propellor (hr : m.propellorDesign.net.Runs p s t) :
    ∃ q, m.propellorDesign.net.Runs q t s := by
  obtain ⟨hsimple, hnet⟩ := surface_iff.1 h
  obtain ⟨i, u, v, w, hc, ⟨-, rfl, rfl⟩ | ⟨-, he⟩⟩ := (runs_propellor hsimple).1 hr
  · exact ⟨_, runs_quad h hc (by simp)⟩
  · -- the corners across the edges of this one
    obtain ⟨j, hj⟩ := hnet.paired i u v hc.enters
    obtain ⟨x, hx⟩ := hnet.exists_leaves hj
    obtain ⟨y, hy⟩ := hnet.exists_enters hj
    obtain ⟨k, hk⟩ := hnet.paired i v w hc.leaves
    obtain ⟨z, hz⟩ := hnet.exists_leaves hk
    rw [mem_cycleEdges_propellorRing] at he
    rcases he with ⟨rfl, rfl⟩ | ⟨rfl, rfl⟩ | ⟨rfl, rfl⟩ | ⟨rfl, rfl⟩
    · exact ⟨_, (runs_propellor_face h.toProper).2 ⟨u, v, w, hc, rfl, rfl⟩⟩
    · exact ⟨_, runs_quad h hx (by simp)⟩
    · exact ⟨_, runs_quad h hy (by simp)⟩
    · exact ⟨_, runs_quad h hz (by simp)⟩

theorem surface_propellor : m.propellorDesign.net.Surface := by
  refine ⟨fun p s t hr => mem_labels_of_runs_propellor h.toProper h.edgesPaired hr,
    ringed_propellor h.toProper, Blueprint.once_of_nodup (nodup_propellorFlags h),
    fun p s t hr => paired_propellor h hr, fun s hs => ?_⟩
  rcases (mem_labels_propellor h.toProper).1 hs with ⟨v, hv, rfl⟩ | ⟨i, u, v, hr, rfl⟩
  · obtain ⟨-, around, -, hstar, -⟩ := star_propellor_vertex h hv
    exact ⟨around, hstar⟩
  · exact (star_propellor_edge h hr).imp fun _ => And.left

theorem polyhedral_propellor : m.propellorDesign.net.Polyhedral where
  toSurface := surface_propellor h
  meet p q s t hpq hst hps hqs hpt hqt := by
    obtain ⟨hsimple, hnet⟩ := surface_iff.1 h
    obtain ⟨_, hr⟩ := id hps
    obtain ⟨_, hr'⟩ := id hqs
    obtain ⟨i, u, v, w, hc, ⟨rfl, -⟩ | ⟨rfl, -⟩⟩ := (runs_propellor hsimple).1 hr <;>
      obtain ⟨j, x, y, z, hc', ⟨rfl, -⟩ | ⟨rfl, -⟩⟩ := (runs_propellor hsimple).1 hr'
    · -- two turned faces share nothing
      obtain ⟨a, b, hi, rfl⟩ := (touches_propellor_face h.toProper).1 hps
      obtain ⟨c, d, hj, heq⟩ := (touches_propellor_face h.toProper).1 hqs
      obtain ⟨rfl, rfl⟩ := Site.edge.inj heq
      exact absurd (congrArg Patch.face (hnet.once i j a b hi hj)) hpq
    · obtain ⟨a, b, ha, hs⟩ := (touches_propellor_face h.toProper).1 hps
      obtain ⟨c, d, hd, ht⟩ := (touches_propellor_face h.toProper).1 hpt
      have hring := ring_propellor_corner h.toProper hc'
      rw [hring.touches_iff] at hqs hqt
      rw [runs_propellor_face h.toProper, runs_propellor_face h.toProper]
      obtain ⟨rfl, hends⟩ := propellor_face_meet hnet hc' hst ha hs hd ht hqs hqt
      exact hends.imp (fun he => ⟨x, y, z, hc', he⟩) fun he => ⟨x, y, z, hc', he⟩
    · obtain ⟨a, b, ha, hs⟩ := (touches_propellor_face h.toProper).1 hqs
      obtain ⟨c, d, hd, ht⟩ := (touches_propellor_face h.toProper).1 hqt
      have hring := ring_propellor_corner h.toProper hc
      rw [hring.touches_iff] at hps hpt
      rw [hring.runs_iff, hring.runs_iff, mem_cycleEdges_propellorRing,
        mem_cycleEdges_propellorRing]
      obtain ⟨-, ⟨hs, ht⟩ | ⟨ht, hs⟩⟩ := propellor_face_meet hnet hc hst ha hs hd ht hps hpt
      · exact .inr (.inl ⟨ht, hs⟩)
      · exact .inl (.inl ⟨hs, ht⟩)
    · have hring := ring_propellor_corner h.toProper hc
      have hring' := ring_propellor_corner h.toProper hc'
      rw [hring.touches_iff] at hps hpt
      rw [hring'.touches_iff] at hqs hqt
      rw [hring.runs_iff, hring.runs_iff]
      exact propellorRing_meet hnet hc hc' hpq hst hps hqs hpt hqt

end Surface

/-- Propellor makes a spherical polyhedron of one. -/
theorem Spherical.propellorDesign (h : m.Spherical) : m.propellorDesign.Spherical where
  toPolyhedral := polyhedral_propellor h.toSurface
  flags_nodup := nodup_propellorFlags h.toSurface
  euler := by
    have heuler := h.euler
    rw [length_labels_propellor h.toSurface, length_faceLabels_propellor h.toSurface,
      length_flags_propellor]
    omega

/-- Propellor is built if every vertex has a position. -/
theorem Proper.outcome_propellor (h : m.Proper) :
    m.propellor.outcome = m.build ['p'] m.propellorDesign := by
  rw [Operation.outcome_propellor, Operation.transform, h.inRange.requirePositions_eq_ok]
  rfl

theorem Proper.propellor_eq_error (h : m.Proper) {e : MeshError}
    (hsize : m.propellorDesign.sizeFault? = some e) : m.propellor.outcome = .error e :=
  h.outcome_propellor.trans (build_eq_error hsize)

end Mesh

end Polyhedra
