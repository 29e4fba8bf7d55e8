import Polyhedra.Proofs.Surface.Designs

/-!
# Gyro

Gyro lays one pentagon into each corner of the old surface.  Around the centre
of a face its pentagons follow one another as the corners do; around an old
vertex they follow one another as the old faces do; at each of the two places on
an edge three of them meet.

## Main results

* `Mesh.Spherical.gyroDesign` — gyro keeps spherical polyhedra.
* `Mesh.Proper.outcome_gyro` — the outcome is what is built by the design.
-/

namespace Polyhedra

namespace Mesh

/-- The pentagon in the corner of face `i` between `u` and `v`. -/
def gyroRing (i u v w : Nat) : List Site :=
  [.center i, .edge u v, .edge v u, .vertex v, .edge v w]

@[simp] theorem mem_cycleEdges_gyroRing {i u v w : Nat} {s t : Site} :
    (s, t) ∈ cycleEdges (gyroRing i u v w) ↔
      (s = .edge v w ∧ t = .center i) ∨ (s = .center i ∧ t = .edge u v) ∨
        (s = .edge u v ∧ t = .edge v u) ∨ (s = .edge v u ∧ t = .vertex v) ∨
          (s = .vertex v ∧ t = .edge v w) :=
  mem_cycleEdges_five

theorem mem_gyroFlags {i u v w : Nat} {p : Patch} {s t : Site} :
    (⟨p, s, t⟩ : Flag Site Patch) ∈ gyroFlags i u v w ↔
      p = .corner i u ∧ (s, t) ∈ cycleEdges (gyroRing i u v w) := by
  simp only [gyroFlags, mem_cycleEdges_gyroRing, List.mem_cons, Flag.mk.injEq, List.not_mem_nil,
    or_false]
  tauto

variable {m : Mesh} {i j u v w x y z : Nat} {p : Patch} {s t : Site}

/-- The pentagons go round the corners. -/
theorem runs_gyro (hsimple : ∀ f ∈ m.faces, f.Simple) :
    m.gyroDesign.net.Runs p s t ↔
      ∃ i u v w, m.net.Corner i u v w ∧ p = .corner i u ∧
        (s, t) ∈ cycleEdges (gyroRing i u v w) := by
  refine (mem_cornerFlags hsimple).trans ?_
  simp only [mem_gyroFlags]

theorem nodup_gyroRing {N : Net Nat Nat} (h : N.Ringed) (hc : N.Corner i u v w) :
    (gyroRing i u v w).Nodup := by
  have huv := h.ne hc.enters
  have huw := h.ne_ends hc
  simp [gyroRing, huv, huw, huv.symm]

theorem ring_gyro (h : m.Proper) (hc : m.net.Corner i u v w) :
    m.gyroDesign.net.Ring (.corner i u) (gyroRing i u v w) where
  nodup := nodup_gyroRing h.ringed hc
  three_le := by simp [gyroRing]
  runs_iff s t := by
    rw [runs_gyro h.simple]
    constructor
    · rintro ⟨j, x, y, z, hc', heq, he⟩
      obtain ⟨rfl, rfl⟩ := Patch.corner.inj heq
      obtain rfl := h.ringed.right_unique hc.enters hc'.enters
      obtain rfl := h.ringed.right_unique hc.leaves hc'.leaves
      exact he
    · exact fun he => ⟨i, u, v, w, hc, rfl, he⟩

/-- An edge of a pentagon tells its corner. -/
theorem corner_of_mem_gyroRing {N : Net Nat Nat} (h : N.Surface) (hc : N.Corner i u v w)
    (hc' : N.Corner j x y z) (he : (s, t) ∈ cycleEdges (gyroRing i u v w))
    (he' : (s, t) ∈ cycleEdges (gyroRing j x y z)) : i = j ∧ u = x ∧ v = y ∧ w = z := by
  rw [mem_cycleEdges_gyroRing] at he he'
  grind

/-- Two sites of a pentagon that are no neighbours tell its corner. -/
theorem corner_of_apart_gyroRing {N : Net Nat Nat} (h : N.Surface) (hc : N.Corner i u v w)
    (hc' : N.Corner j x y z) (hst : s ≠ t) (hs : s ∈ gyroRing i u v w)
    (hs' : s ∈ gyroRing j x y z) (ht : t ∈ gyroRing i u v w) (ht' : t ∈ gyroRing j x y z)
    (hapart : (s, t) ∉ cycleEdges (gyroRing i u v w))
    (hapart' : (t, s) ∉ cycleEdges (gyroRing i u v w)) : i = j ∧ u = x := by
  rw [mem_cycleEdges_gyroRing] at hapart hapart'
  simp only [gyroRing, List.mem_cons, List.not_mem_nil, or_false] at hs hs' ht ht'
  rcases hs with rfl | rfl | rfl | rfl | rfl <;> grind

/-- Two sites that two pentagons share are neighbours. -/
theorem gyroRing_meet {N : Net Nat Nat} (h : N.Surface) (hc : N.Corner i u v w)
    (hc' : N.Corner j x y z) (hne : Patch.corner i u ≠ .corner j x) (hst : s ≠ t)
    (hs : s ∈ gyroRing i u v w) (hs' : s ∈ gyroRing j x y z) (ht : t ∈ gyroRing i u v w)
    (ht' : t ∈ gyroRing j x y z) :
    (s, t) ∈ cycleEdges (gyroRing i u v w) ∨ (t, s) ∈ cycleEdges (gyroRing i u v w) := by
  by_contra hapart
  rw [not_or] at hapart
  obtain ⟨rfl, rfl⟩ :=
    corner_of_apart_gyroRing h hc hc' hst hs hs' ht ht' hapart.1 hapart.2
  exact hne rfl

theorem ringed_gyro (h : m.Proper) : m.gyroDesign.net.Ringed := by
  intro p s t hr
  obtain ⟨i, u, v, w, hc, rfl, -⟩ := (runs_gyro h.simple).1 hr
  exact ⟨_, ring_gyro h hc⟩

/-! ## Stars -/

section Stars

variable (h : m.Surface)
include h

/-- What a pentagon runs along, flag by flag. -/
private theorem runs_of_corner (hc : m.net.Corner i u v w)
    (he : (s, t) ∈ cycleEdges (gyroRing i u v w)) :
    m.gyroDesign.net.Runs (.corner i u) s t :=
  ((ring_gyro h.toProper hc).runs_iff s t).2 he

/-- Around the centre of a face its pentagons follow one another as its corners do. -/
theorem star_gyro_center {f : Face} (hf : m.faces[i]? = some f) :
    m.gyroDesign.net.Star (.center i) (f.map (.corner i ·)) := by
  obtain ⟨hsimple, hnet⟩ := surface_iff.1 h
  have hring := ring_net hf (hsimple f (List.mem_of_getElem? hf))
  refine .of_across ?_ ?_ ?_ ?_
  · exact hring.nodup.map fun _ _ heq => (Patch.corner.inj heq).2
  · rw [List.length_map]
    exact hring.three_le
  · rintro p ⟨t, ht⟩
    obtain ⟨j, x, y, z, hc, rfl, he⟩ := (runs_gyro hsimple).1 ht
    rw [mem_cycleEdges_gyroRing] at he
    obtain ⟨rfl, -⟩ : i = j ∧ t = .edge x y := by simpa using he
    exact List.mem_map_of_mem (hring.touches_iff.1 ⟨y, hc.enters⟩)
  · intro p q hpq
    obtain ⟨u, v, huv, rfl, rfl⟩ := mem_cycleEdges_map.1 hpq
    have hr := (hring.runs_iff u v).2 huv
    obtain ⟨w, hc⟩ := hnet.exists_leaves hr
    obtain ⟨x, hc'⟩ := hnet.exists_leaves hc.leaves
    exact ⟨.edge v w, runs_of_corner h hc (by simp),
      runs_of_corner h hc' (by simp)⟩

/-- Around an old vertex the pentagons follow one another as the old faces do. -/
theorem star_gyro_vertex (hv : v < m.vertexCount) :
    ∃ around around', m.net.Star v around ∧ m.gyroDesign.net.Star (.vertex v) around' ∧
      around'.length = around.length := by
  obtain ⟨hsimple, hnet⟩ := surface_iff.1 h
  obtain ⟨around, before, hstar, hbefore, hnext⟩ := hnet.exists_star_before hv
  refine ⟨around, around.map fun i => .corner i (before i), hstar, .of_across ?_ ?_ ?_ ?_,
    List.length_map _⟩
  · exact hstar.nodup.map fun _ _ heq => (Patch.corner.inj heq).1
  · rw [List.length_map]
    exact hstar.three_le
  · rintro p ⟨t, ht⟩
    obtain ⟨j, x, y, z, hc, rfl, he⟩ := (runs_gyro hsimple).1 ht
    rw [mem_cycleEdges_gyroRing] at he
    obtain ⟨rfl, -⟩ : v = y ∧ t = .edge y z := by simpa using he
    have hj := (hstar.mem_iff j).2 ⟨z, hc.leaves⟩
    obtain ⟨w, hw⟩ := hbefore j hj
    rw [(hc.eq_of_middle hnet hw).1]
    exact List.mem_map_of_mem hj
  · intro p q hpq
    obtain ⟨i, j, hij, rfl, rfl⟩ := mem_cycleEdges_map.1 hpq
    obtain ⟨hi, hr⟩ := (hnext i j).1 hij
    obtain ⟨w, hc⟩ := hbefore i hi
    obtain ⟨x, hc'⟩ := hbefore j (mem_right_of_mem_cycleEdges hij)
    obtain rfl := hnet.right_unique hr hc'.leaves
    exact ⟨.edge v (before i), runs_of_corner h hc (by simp),
      runs_of_corner h hc' (by simp)⟩

/-- At a place on an edge two pentagons of one face and one of the other meet. -/
theorem star_gyro_edge (hr : m.net.Runs i u v) :
    ∃ around, m.gyroDesign.net.Star (.edge u v) around ∧ around.length = 3 := by
  obtain ⟨hsimple, hnet⟩ := surface_iff.1 h
  obtain ⟨j, hback⟩ := hnet.paired i u v hr
  obtain ⟨w, hc⟩ := hnet.exists_leaves hr
  obtain ⟨a, ha⟩ := hnet.exists_enters hr
  obtain ⟨x, hx⟩ := hnet.exists_leaves hback
  have hau := hnet.ne ha.enters
  have hij : i ≠ j := by
    rintro rfl
    exact hnet.not_back hr hback
  refine ⟨[.corner i u, .corner i a, .corner j v], .of_across ?_ ?_ ?_ ?_, rfl⟩
  · simp [hau.symm, hij]
  · simp
  · rintro p ⟨t, ht⟩
    obtain ⟨k, b, c, d, hc', rfl, he⟩ := (runs_gyro hsimple).1 ht
    rw [mem_cycleEdges_gyroRing] at he
    simp only [reduceCtorEq, false_and, Site.edge.injEq, false_or] at he
    simp only [List.mem_cons, Patch.corner.injEq, List.not_mem_nil, or_false]
    grind
  · intro p q hpq
    rw [mem_cycleEdges_three] at hpq
    rcases hpq with ⟨rfl, rfl⟩ | ⟨rfl, rfl⟩ | ⟨rfl, rfl⟩
    · exact ⟨.edge v u, runs_of_corner h hx (by simp),
        runs_of_corner h hc (by simp)⟩
    · exact ⟨.center i, runs_of_corner h hc (by simp),
        runs_of_corner h ha (by simp)⟩
    · exact ⟨.vertex u, runs_of_corner h ha (by simp),
        runs_of_corner h hx (by simp)⟩

end Stars

/-! ## The new surface -/

theorem mem_labels_gyro (h : m.Proper) :
    s ∈ m.gyroDesign.labels ↔
      (∃ v, v < m.vertexCount ∧ s = .vertex v) ∨ (∃ i, i < m.faceCount ∧ s = .center i) ∨
        ∃ i u v, m.net.Runs i u v ∧ s = .edge u v := by
  rw [Blueprint.mem_labels, gyroDesign, List.map_append, List.map_append, keys_vertexSites,
    keys_centerSites, List.mem_append, List.mem_append, mem_keys_interiorSites h]
  simp [eq_comm, or_assoc]

/-- Between paired edges a pentagon goes round sites of the new surface. -/
theorem mem_labels_of_runs_gyro (h : m.Proper) (hpaired : m.EdgesPaired)
    (hr : m.gyroDesign.net.Runs p s t) : s ∈ m.gyroDesign.labels := by
  obtain ⟨i, u, v, w, hc, -, he⟩ := (runs_gyro h.simple).1 hr
  obtain ⟨j, hj⟩ := hpaired.exists_runs hc.enters
  have hs := mem_left_of_mem_cycleEdges he
  simp only [gyroRing, List.mem_cons, List.not_mem_nil, or_false] at hs
  refine (mem_labels_gyro h).2 ?_
  rcases hs with rfl | rfl | rfl | rfl | rfl
  · exact .inr (.inl ⟨i, lt_faceCount_of_runs hc.enters, rfl⟩)
  · exact .inr (.inr ⟨i, u, v, hc.enters, rfl⟩)
  · exact .inr (.inr ⟨j, v, u, hj, rfl⟩)
  · exact .inl ⟨v, h.isVertex hc.leaves, rfl⟩
  · exact .inr (.inr ⟨i, v, w, hc.leaves, rfl⟩)

theorem length_flags_gyro (m : Mesh) :
    m.gyroDesign.flags.length = 5 * m.directedEdges.length :=
  length_cornerFlags fun _ _ _ _ => rfl

section Surface

variable (h : m.Surface)
include h

theorem nodup_keys_gyro : (m.gyroDesign.vertices.map Prod.fst).Nodup := by
  rw [gyroDesign, List.map_append, List.map_append, keys_vertexSites, keys_centerSites]
  refine List.Nodup.append (List.Nodup.append ?_ ?_ ?_) (nodup_keys_interiorSites h) ?_
  · exact List.nodup_range.map fun _ _ heq => Site.vertex.inj heq
  · exact List.nodup_range.map fun _ _ heq => Site.center.inj heq
  · simp [List.disjoint_left]
  · rw [List.disjoint_left]
    intro s hs hs'
    obtain ⟨i, u, v, -, rfl⟩ := (mem_keys_interiorSites h.toProper).1 hs'
    simp at hs

theorem length_labels_gyro :
    m.gyroDesign.labels.length = m.vertexCount + m.faceCount + m.directedEdges.length := by
  rw [Blueprint.length_labels_eq (nodup_keys_gyro h) fun _ => Blueprint.mem_labels]
  simp [gyroDesign, vertexSites, centerSites, interiorSites, faceCenters, vertexCount, faceCount,
    length_cornersWithFace]
  omega

theorem nodup_gyroFlags : (m.gyroDesign.flags.map Flag.edge).Nodup := by
  obtain ⟨hsimple, hnet⟩ := surface_iff.1 h
  refine nodup_cornerFlags hsimple (fun i u v w _ => ?_) fun i u v w j x y z e hc hc' he he' => ?_
  · simp [gyroFlags, Flag.edge]
  · obtain ⟨⟨p, s, t⟩, hflag, rfl⟩ := List.mem_map.1 he
    obtain ⟨⟨q, _, _⟩, hflag', heq⟩ := List.mem_map.1 he'
    obtain ⟨rfl, rfl⟩ := Prod.mk.inj heq
    exact corner_of_mem_gyroRing hnet hc hc' (mem_gyroFlags.1 hflag).2 (mem_gyroFlags.1 hflag').2

/-- The pentagon of a corner is told by its face and the vertex before it. -/
theorem nodup_gyroPatches :
    (m.cornersWithFace.map fun c : Nat × Nat × Nat × Nat => Patch.corner c.1 c.2.1).Nodup := by
  obtain ⟨hsimple, hnet⟩ := surface_iff.1 h
  refine (nodup_cornersWithFace hsimple).map_on ?_
  rintro ⟨i, u, v, w⟩ hc ⟨j, x, y, z⟩ hc' heq
  obtain ⟨rfl, rfl⟩ := Patch.corner.inj heq
  have hc := (mem_cornersWithFace hsimple).1 hc
  have hc' := (mem_cornersWithFace hsimple).1 hc'
  obtain rfl := hnet.right_unique hc.enters hc'.enters
  rw [hnet.right_unique hc.leaves hc'.leaves]

theorem length_faceLabels_gyro :
    m.gyroDesign.faceLabels.length = m.directedEdges.length := by
  obtain ⟨hsimple, hnet⟩ := surface_iff.1 h
  rw [Blueprint.length_faceLabels_eq (nodup_gyroPatches h), List.length_map,
    length_cornersWithFace]
  intro p
  rw [List.mem_map]
  constructor
  · rintro ⟨s, t, hr⟩
    obtain ⟨i, u, v, w, hc, rfl, -⟩ := (runs_gyro hsimple).1 hr
    exact ⟨(i, u, v, w), (mem_cornersWithFace hsimple).2 hc, rfl⟩
  · rintro ⟨⟨i, u, v, w⟩, hc, rfl⟩
    have hring := ring_gyro h.toProper ((mem_cornersWithFace hsimple).1 hc)
    exact ⟨_, hring.touches_iff.2 (by simp [gyroRing] : Site.center i ∈ gyroRing i u v w)⟩

/-- Old vertices, centres and two points on each edge are joined by a pentagon at each corner. -/
theorem sizeFault?_gyroDesign :
    m.gyroDesign.sizeFault? =
      oversize? (m.vertexCount + m.faceCount + 2 * m.edges.length) (2 * m.edges.length) := by
  rw [Blueprint.sizeFault?_eq, length_labels_gyro h, length_faceLabels_gyro h,
    h.two_mul_length_edges]

/-- Across each side of a pentagon there is another pentagon. -/
theorem paired_gyro (hr : m.gyroDesign.net.Runs p s t) :
    ∃ q, m.gyroDesign.net.Runs q t s := by
  obtain ⟨hsimple, hnet⟩ := surface_iff.1 h
  obtain ⟨i, u, v, w, hc, -, he⟩ := (runs_gyro hsimple).1 hr
  -- the pentagons in front of and behind this one in its face
  obtain ⟨a, ha⟩ := hnet.exists_enters hc.enters
  obtain ⟨b, hb⟩ := hnet.exists_leaves hc.leaves
  -- and those across the edges of its corner
  obtain ⟨j, hj⟩ := hnet.paired i u v hc.enters
  obtain ⟨x, hx⟩ := hnet.exists_leaves hj
  obtain ⟨y, hy⟩ := hnet.exists_enters hj
  obtain ⟨k, hk⟩ := hnet.paired i v w hc.leaves
  obtain ⟨z, hz⟩ := hnet.exists_leaves hk
  rw [mem_cycleEdges_gyroRing] at he
  rcases he with ⟨rfl, rfl⟩ | ⟨rfl, rfl⟩ | ⟨rfl, rfl⟩ | ⟨rfl, rfl⟩ | ⟨rfl, rfl⟩
  · exact ⟨_, runs_of_corner h hb (by simp)⟩
  · exact ⟨_, runs_of_corner h ha (by simp)⟩
  · exact ⟨_, runs_of_corner h hx (by simp)⟩
  · exact ⟨_, runs_of_corner h hy (by simp)⟩
  · exact ⟨_, runs_of_corner h hz (by simp)⟩

theorem surface_gyro : m.gyroDesign.net.Surface := by
  refine ⟨fun p s t hr => mem_labels_of_runs_gyro h.toProper h.edgesPaired hr,
    ringed_gyro h.toProper, Blueprint.once_of_nodup (nodup_gyroFlags h),
    fun p s t hr => paired_gyro h hr, fun s hs => ?_⟩
  rcases (mem_labels_gyro h.toProper).1 hs with ⟨v, hv, rfl⟩ | ⟨i, hi, rfl⟩ | ⟨i, u, v, hr, rfl⟩
  · obtain ⟨-, around, -, hstar, -⟩ := star_gyro_vertex h hv
    exact ⟨around, hstar⟩
  · exact ⟨_, star_gyro_center h (List.getElem?_eq_getElem hi)⟩
  · exact (star_gyro_edge h hr).imp fun _ => And.left

theorem polyhedral_gyro : m.gyroDesign.net.Polyhedral where
  toSurface := surface_gyro h
  meet p q s t hpq hst hps hqs hpt hqt := by
    obtain ⟨hsimple, hnet⟩ := surface_iff.1 h
    obtain ⟨_, hr⟩ := id hps
    obtain ⟨_, hr'⟩ := id hqs
    obtain ⟨i, u, v, w, hc, rfl, -⟩ := (runs_gyro hsimple).1 hr
    obtain ⟨j, x, y, z, hc', rfl, -⟩ := (runs_gyro hsimple).1 hr'
    have hring := ring_gyro h.toProper hc
    have hring' := ring_gyro h.toProper hc'
    rw [hring.touches_iff] at hps hpt
    rw [hring'.touches_iff] at hqs hqt
    rw [hring.runs_iff, hring.runs_iff]
    exact gyroRing_meet hnet hc hc' hpq hst hps hqs hpt hqt

end Surface

/-- Gyro makes a spherical polyhedron of one. -/
theorem Spherical.gyroDesign (h : m.Spherical) : m.gyroDesign.Spherical where
  toPolyhedral := polyhedral_gyro h.toSurface
  flags_nodup := nodup_gyroFlags h.toSurface
  euler := by
    have heuler := h.euler
    rw [length_labels_gyro h.toSurface, length_faceLabels_gyro h.toSurface,
      length_flags_gyro]
    omega

/-- Gyro is built if every vertex has a position. -/
theorem Proper.outcome_gyro (h : m.Proper) : m.gyro.outcome = m.build ['g'] m.gyroDesign := by
  rw [Operation.outcome_gyro, Operation.transform, h.inRange.requirePositions_eq_ok]
  rfl

theorem Proper.gyro_eq_error (h : m.Proper) {e : MeshError}
    (hsize : m.gyroDesign.sizeFault? = some e) : m.gyro.outcome = .error e :=
  h.outcome_gyro.trans (build_eq_error hsize)

end Mesh

end Polyhedra
