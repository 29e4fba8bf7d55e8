import Polyhedra.Proofs.Surface.Ambo
import Polyhedra.Proofs.Surface.Gyro
import Polyhedra.Proofs.Surface.Isomorphism

/-!
# Ambo and gyro of a dual

In the dual vertices and faces trade places, and every edge is crossed by an edge
of the dual: where `i` runs from `u` to `v` and `j` runs back, the dual face of `u`
runs from `j` to `i`.

Ambo has a vertex on each edge and a face in each face and around each vertex.  So
the ambo of a polyhedron and that of its dual are the same surface: the middle of
an edge is the middle of the edge that crosses it (`Site.crossing`), and the faces
trade places with the vertices.

Gyro is turned one way.  On an edge that `i` runs along from `u` to `v`, and `j`
back, one place is joined to `u` and to the centre of `i`, the other one to `v` and
to the centre of `j`.  In the gyro of the dual one place is joined to `u` and `j`,
the other one to `v` and `i`: it is turned the other way.  So it is the mirror image
of the gyro of the mirror image, and need not be the gyro itself.

## Main results

* `Mesh.Polyhedral.ambo_dual` — the ambo of the dual is the ambo.
* `Mesh.Polyhedral.gyro_dual` — the gyro of the dual is the other gyro.
-/

namespace Polyhedra

instance : Nonempty Site := ⟨.vertex 0⟩

instance : Nonempty Patch := ⟨.face 0⟩

/-! ## Corners of the dual -/

namespace Net

variable {V F : Type} {N : Net V F} {e f g : F} {u v w : V}

/--
At a corner of the dual face of `v` there is a face `g` with a corner at `v`, and
the two faces across its edges there.
-/
theorem corner_dual_iff :
    N.dual.Corner v f g e ↔ ∃ u w, N.Corner g u v w ∧ N.Runs f w v ∧ N.Runs e v u := by
  constructor
  · rintro ⟨⟨w, hg, hf⟩, u, he, hg'⟩
    exact ⟨u, w, ⟨hg', hg⟩, hf, he⟩
  · rintro ⟨u, w, hc, hf, he⟩
    exact ⟨⟨w, hc.leaves, hf⟩, u, he, hc.enters⟩

/-- A corner has faces across its edges, and with them it is a corner of the dual. -/
theorem Surface.exists_corner_dual (h : N.Surface) (hc : N.Corner g u v w) :
    ∃ f e, N.dual.Corner v f g e ∧ N.Runs f w v ∧ N.Runs e v u := by
  obtain ⟨f, hf⟩ := h.paired g v w hc.leaves
  obtain ⟨e, he⟩ := h.paired g u v hc.enters
  exact ⟨f, e, corner_dual_iff.2 ⟨u, w, hc, hf, he⟩, hf, he⟩

/-- The face that runs from `u` to `v`, if there is one. -/
noncomputable def along [Nonempty F] (N : Net V F) (u v : V) : F :=
  Classical.epsilon fun f => N.Runs f u v

theorem Surface.along_eq [Nonempty F] (h : N.Surface) (hf : N.Runs f u v) : N.along u v = f := by
  have hruns : N.Runs (N.along u v) u v :=
    Classical.epsilon_spec (p := fun f => N.Runs f u v) ⟨f, hf⟩
  exact h.once _ _ u v hruns hf

/-- The vertex from which a face comes to `v`, if there is one. -/
noncomputable def before [Nonempty V] (N : Net V F) (f : F) (v : V) : V :=
  Classical.epsilon fun u => N.Runs f u v

theorem Surface.before_eq [Nonempty V] (h : N.Surface) (hf : N.Runs f u v) :
    N.before f v = u := by
  have hruns : N.Runs f (N.before f v) v :=
    Classical.epsilon_spec (p := fun u => N.Runs f u v) ⟨u, hf⟩
  exact h.left_unique hruns hf

end Net

/-! ## Ambo -/

/-- The middle of the edge of the dual that crosses an edge. -/
noncomputable def Site.crossing (N : Net Nat Nat) : Site → Site
  | edge u v => middle (N.along u v) (N.along v u)
  | s => s

theorem Site.crossing_middle {N : Net Nat Nat} (h : N.Surface) {i j u v : Nat}
    (hi : N.Runs i u v) (hj : N.Runs j v u) : crossing N (middle u v) = middle i j := by
  rcases Nat.le_total u v with huv | hvu
  · rw [middle, Nat.min_eq_left huv, Nat.max_eq_right huv, crossing, h.along_eq hi, h.along_eq hj]
  · rw [middle, Nat.min_eq_right hvu, Nat.max_eq_left hvu, crossing, h.along_eq hi, h.along_eq hj,
      middle_comm]

/-- Faces and vertices trade places. -/
def Patch.polar : Patch → Patch
  | face i => vertex i
  | vertex v => face v
  | corner i v => corner i v

theorem Patch.polar_inj {p q : Patch} (h : p.polar = q.polar) : p = q := by
  cases p <;> cases q <;> simp_all [polar]

namespace Mesh

variable {m d : Mesh}

/-- The new faces go round the middles of edges. -/
theorem exists_edge_of_touches_ambo (h : m.Surface) {p : Patch} {s : Site}
    (hs : m.amboDesign.net.Touches p s) :
    ∃ i j u v, m.net.Runs i u v ∧ m.net.Runs j v u ∧ s = .middle u v := by
  obtain ⟨hsimple, hnet⟩ := surface_iff.1 h
  obtain ⟨t, hr⟩ := hs
  obtain ⟨i, u, v, w, hc, ⟨-, rfl, -⟩ | ⟨-, rfl, -⟩⟩ := (runs_ambo hsimple).1 hr
  · obtain ⟨j, hj⟩ := hnet.paired i u v hc.enters
    exact ⟨i, j, u, v, hc.enters, hj, rfl⟩
  · obtain ⟨j, hj⟩ := hnet.paired i v w hc.leaves
    exact ⟨i, j, v, w, hc.leaves, hj, rfl⟩

/-- The ambo of the dual is the ambo, with the faces in place of the vertices. -/
theorem renames_ambo_dual (h : m.Polyhedral) (hd : d.Polyhedral) (hnet : d.net = m.net.dual) :
    m.amboDesign.net.Renames d.amboDesign.net (Site.crossing m.net) Patch.polar := by
  obtain ⟨hsimple, hm⟩ := polyhedral_iff.1 h
  have hcross := @Site.crossing_middle _ hm.toSurface
  refine .of_runs (surface_ambo h.toSurface) (surface_ambo hd.toSurface) (fun p' s' t' => ?_) ?_
    fun _ _ _ _ _ _ heq => Patch.polar_inj heq
  · -- corner by corner: what goes round `v` in the mesh goes along the face `v` in the dual
    rw [runs_ambo hd.simple, hnet]
    constructor
    · rintro ⟨v, f, g, e, hc, heq⟩
      obtain ⟨u, w, hcorner, hf, he⟩ := Net.corner_dual_iff.1 hc
      rcases heq with ⟨rfl, rfl, rfl⟩ | ⟨rfl, rfl, rfl⟩
      · refine ⟨.vertex v, .middle v w, .middle u v, ?_, rfl, ?_, ?_⟩
        · exact (runs_ambo hsimple).2 ⟨g, u, v, w, hcorner, .inr ⟨rfl, rfl, rfl⟩⟩
        · rw [hcross hcorner.leaves hf, Site.middle_comm]
        · exact hcross hcorner.enters he
      · refine ⟨.face g, .middle u v, .middle v w, ?_, rfl, ?_, ?_⟩
        · exact (runs_ambo hsimple).2 ⟨g, u, v, w, hcorner, .inl ⟨rfl, rfl, rfl⟩⟩
        · exact hcross hcorner.enters he
        · rw [hcross hcorner.leaves hf, Site.middle_comm]
    · rintro ⟨p, s, t, hr, rfl, rfl, rfl⟩
      obtain ⟨g, u, v, w, hcorner, heq⟩ := (runs_ambo hsimple).1 hr
      obtain ⟨f, e, hc, hf, he⟩ := hm.exists_corner_dual hcorner
      refine ⟨v, f, g, e, hc, ?_⟩
      rw [Site.middle_comm f g, ← hcross hcorner.leaves hf, ← hcross hcorner.enters he]
      rcases heq with ⟨rfl, rfl, rfl⟩ | ⟨rfl, rfl, rfl⟩
      · exact .inr ⟨rfl, rfl, rfl⟩
      · exact .inl ⟨rfl, rfl, rfl⟩
  · -- two faces have one edge in common at most, so that the crossing edge tells the edge
    intro p q s t hs ht heq
    obtain ⟨i, j, u, v, hi, hj, rfl⟩ := exists_edge_of_touches_ambo h.toSurface hs
    obtain ⟨k, l, x, y, hk, hl, rfl⟩ := exists_edge_of_touches_ambo h.toSurface ht
    rw [hcross hi hj, hcross hk hl] at heq
    rcases Site.middle_inj.1 heq with ⟨rfl, rfl⟩ | ⟨rfl, rfl⟩
    · obtain ⟨rfl, rfl⟩ := hm.edge_unique hi hj hk hl
      rfl
    · obtain ⟨rfl, rfl⟩ := hm.edge_unique hi hj hl hk
      exact Site.middle_comm _ _

/-- The dual has as many edges as the polyhedron. -/
theorem Polyhedral.length_edges_dual (h : m.Polyhedral) (hd : m.dual = .ok d) :
    d.edges.length = m.edges.length := by
  obtain ⟨hpoly, hnet⟩ := h.of_dual hd
  have hedges := h.toSurface.two_mul_length_edges
  have hedges' := hpoly.toSurface.two_mul_length_edges
  rw [length_directedEdges_dual h hpoly hnet] at hedges'
  omega

/-- The ambo of the dual has the size of the ambo. -/
theorem Polyhedral.sizeFault?_ambo_dual (h : m.Polyhedral) (hd : m.dual = .ok d) :
    d.amboDesign.sizeFault? = m.amboDesign.sizeFault? := by
  obtain ⟨-, hfaces, hvertices⟩ := dual_eq_ok hd
  rw [sizeFault?_amboDesign (h.of_dual hd).1.toSurface, sizeFault?_amboDesign h.toSurface,
    h.length_edges_dual hd, hfaces, hvertices, Nat.add_comm]

theorem Polyhedral.exists_ambo (h : m.Polyhedral) (hsize : m.amboDesign.sizeFault? = none) :
    ∃ a, m.ambo.outcome = .ok a ∧ a.Polyhedral ∧ m.amboDesign.net.Isomorphic a.net := by
  obtain ⟨a, ha, hbuilt⟩ := m.exists_built ['a'] (polyhedral_ambo h) hsize
  exact ⟨a, h.toProper.outcome_ambo.trans ha, hbuilt⟩

/--
A polyhedron has a dual, the ambos of both are built, and they are the same oriented
surface, unless the ambos have too many vertices or faces; both are refused then.
-/
theorem Polyhedral.ambo_dual (h : m.Polyhedral) :
    (∀ e, oversize? m.edges.length (m.faceCount + m.vertexCount) = some e →
        m.ambo.outcome = .error e ∧ ∀ d, m.dual = .ok d → d.ambo.outcome = .error e) ∧
      (oversize? m.edges.length (m.faceCount + m.vertexCount) = none →
        ∃ d a b, m.dual = .ok d ∧ m.ambo.outcome = .ok a ∧ d.ambo.outcome = .ok b ∧
          a.Isomorphic b) := by
  rw [← sizeFault?_amboDesign h.toSurface]
  refine ⟨fun e hsize => ⟨h.toProper.ambo_eq_error hsize, fun d hd => ?_⟩, fun hsize => ?_⟩
  · exact (h.of_dual hd).1.toProper.ambo_eq_error ((h.sizeFault?_ambo_dual hd).trans hsize)
  have hlimits : m.WithinLimits := by
    obtain ⟨-, hfaces⟩ := oversize?_eq_none.1 ((sizeFault?_amboDesign h.toSurface).symm.trans hsize)
    exact ⟨(Nat.le_add_left _ _).trans hfaces, (Nat.le_add_right _ _).trans hfaces⟩
  obtain ⟨d, hd, hpoly, hnet⟩ := h.exists_dual hlimits
  obtain ⟨a, ha, hapoly, hanet⟩ := h.exists_ambo hsize
  obtain ⟨b, hb, hbpoly, hbnet⟩ := hpoly.exists_ambo ((h.sizeFault?_ambo_dual hd).trans hsize)
  refine ⟨d, a, b, hd, ha, hb, (isomorphic_iff_net hapoly.toSurface hbpoly.toSurface).2 ?_⟩
  have hback := hanet.symm (surface_ambo h.toSurface)
  exact hback.trans (.trans ⟨_, _, renames_ambo_dual h hpoly hnet⟩ hbnet)

/-- The ambo of the octahedron, as the dual of the cube, is that of the cube. -/
theorem Polyhedral.ambo_dual_cube :
    cube.Polyhedral ∧ ∃ d a b, cube.dual = .ok d ∧ cube.ambo.outcome = .ok a ∧
      d.ambo.outcome = .ok b ∧ a.Isomorphic b :=
  have hpoly : cube.Polyhedral := spherical_cube.toPolyhedral
  ⟨hpoly, (Polyhedral.ambo_dual hpoly).2 (by rw [length_edges_cube]; decide)⟩

/-- An antiprism with so many edges that its ambo would have too many vertices. -/
theorem Polyhedral.ambo_outgrows_antiprism :
    (antiprism 2500001).Polyhedral ∧
      (antiprism 2500001).ambo.outcome = .error (.tooManyVertices 10000004 maxVertices) := by
  have hspherical : (antiprism 2500001).Spherical := spherical_antiprism (by decide)
  have hsurface := hspherical.toSurface
  have hedges : (antiprism 2500001).edges.length = 10000004 := by
    have hformula := hspherical.euler_formula
    rw [vertexCount_antiprism, faceCount_antiprism] at hformula
    omega
  refine ⟨hspherical.toPolyhedral, hsurface.toProper.ambo_eq_error ?_⟩
  rw [sizeFault?_amboDesign hsurface, hedges]
  exact oversize?_of_vertices (by decide)

end Mesh

/-! ## Gyro -/

/--
Vertices and centres trade places, and a place on an edge goes to the edge that
crosses it: the one near `u` goes to the one near the face that runs back to `u`.
-/
noncomputable def Site.turned (N : Net Nat Nat) : Site → Site
  | vertex v => center v
  | center i => vertex i
  | edge u v => edge (N.along v u) (N.along u v)

/-- The corner of face `i` at `w` goes to the dual face of the vertex before `w`. -/
noncomputable def Patch.turned (N : Net Nat Nat) : Patch → Patch
  | corner i w => corner (N.before i w) (N.along w (N.before i w))
  | p => p

theorem Patch.turned_corner {N : Net Nat Nat} (h : N.Surface) {f g v w : Nat}
    (hg : N.Runs g v w) (hf : N.Runs f w v) : turned N (corner g w) = corner v f := by
  rw [turned, h.before_eq hg, h.along_eq hf]

namespace Mesh

variable {m d : Mesh} {e f g u v w : Nat} {p : Patch} {s t : Site}

/-- The pentagon of a corner, run through backwards, goes to that of the corner of the dual. -/
theorem gyroRing_turned {N : Net Nat Nat} (h : N.Surface) (hc : N.Corner g u v w)
    (hf : N.Runs f w v) (he : N.Runs e v u) :
    gyroRing v f g e = ((gyroRing g w v u).map (Site.turned N)).reverse.rotate 1 := by
  simp [gyroRing, Site.turned, h.along_eq hc.enters, h.along_eq hc.leaves, h.along_eq hf,
    h.along_eq he]

theorem mem_cycleEdges_gyroRing_turned {N : Net Nat Nat} (h : N.Surface) (hc : N.Corner g u v w)
    (hf : N.Runs f w v) (he : N.Runs e v u) :
    (s, t) ∈ cycleEdges (gyroRing v f g e) ↔ ∃ s' t',
      (t', s') ∈ cycleEdges (gyroRing g w v u) ∧ s'.turned N = s ∧ t'.turned N = t := by
  rw [gyroRing_turned h hc hf he, mem_cycleEdges_rotate (by simp [gyroRing]),
    mem_cycleEdges_reverse, mem_cycleEdges_map]
  constructor
  · rintro ⟨t', s', hts, ht, hs⟩
    exact ⟨s', t', hts, hs, ht⟩
  · rintro ⟨s', t', hts, hs, ht⟩
    exact ⟨t', s', hts, ht, hs⟩

/-- The mirror image of the gyro of the mirror image. -/
def mirrorGyro (m : Mesh) : Net Site Patch := m.inverted.gyroDesign.net.opposite

theorem runs_mirrorGyro (h : m.Polyhedral) :
    m.mirrorGyro.Runs p s t ↔ ∃ g u v w, m.net.Corner g u v w ∧ p = .corner g w ∧
      (t, s) ∈ cycleEdges (gyroRing g w v u) := by
  refine (runs_gyro h.inverted.simple).trans ?_
  rw [net_inverted]
  constructor
  · rintro ⟨g, w, v, u, hc, hp, hts⟩
    exact ⟨g, u, v, w, ⟨hc.leaves, hc.enters⟩, hp, hts⟩
  · rintro ⟨g, u, v, w, hc, hp, hts⟩
    exact ⟨g, w, v, u, ⟨hc.leaves, hc.enters⟩, hp, hts⟩

theorem surface_mirrorGyro (h : m.Polyhedral) : m.mirrorGyro.Surface :=
  (surface_gyro h.inverted.toSurface).opposite

/-- The sites that pentagons go round. -/
theorem site_of_touches_mirrorGyro (h : m.Polyhedral) (hs : m.mirrorGyro.Touches p s) :
    (∃ v, s = .vertex v) ∨ (∃ i, s = .center i) ∨
      ∃ i j u v, m.net.Runs i u v ∧ m.net.Runs j v u ∧ s = .edge u v := by
  obtain ⟨t, hr⟩ := hs
  have hlabel := (surface_mirrorGyro h).isVertex p s t hr
  rcases (mem_labels_gyro h.inverted.toProper).1 hlabel with
    ⟨v, -, rfl⟩ | ⟨i, -, rfl⟩ | ⟨j, u, v, hj, rfl⟩
  · exact .inl ⟨v, rfl⟩
  · exact .inr (.inl ⟨i, rfl⟩)
  · rw [net_inverted] at hj
    obtain ⟨i, hi⟩ := (surface_iff.1 h.toSurface).2.paired j v u hj
    exact .inr (.inr ⟨i, j, u, v, hi, hj, rfl⟩)

/-- Different sites go to different sites. -/
theorem turned_inj (h : m.Polyhedral) {q : Patch} (hs : m.mirrorGyro.Touches p s)
    (ht : m.mirrorGyro.Touches q t) (heq : s.turned m.net = t.turned m.net) : s = t := by
  obtain ⟨-, hm⟩ := polyhedral_iff.1 h
  have hedge : ∀ {i j u v}, m.net.Runs i u v → m.net.Runs j v u →
      Site.turned m.net (.edge u v) = .edge j i := by
    intro i j u v hi hj
    rw [Site.turned, hm.toSurface.along_eq hi, hm.toSurface.along_eq hj]
  rcases site_of_touches_mirrorGyro h hs with ⟨v, rfl⟩ | ⟨i, rfl⟩ | ⟨i, j, u, v, hi, hj, rfl⟩ <;>
    rcases site_of_touches_mirrorGyro h ht with ⟨y, rfl⟩ | ⟨k, rfl⟩ | ⟨k, l, x, y, hk, hl, rfl⟩
  case inl.inl => rw [Site.center.inj heq]
  case inr.inl.inr.inl => rw [Site.vertex.inj heq]
  case inr.inr.inr.inr =>
    rw [hedge hi hj, hedge hk hl] at heq
    obtain ⟨rfl, rfl⟩ := Site.edge.inj heq
    obtain ⟨rfl, rfl⟩ := hm.edge_unique hi hj hk hl
    rfl
  all_goals simp [Site.turned] at heq

/-- The gyro of the dual is the mirror image of the gyro of the mirror image. -/
theorem renames_gyro_dual (h : m.Polyhedral) (hd : d.Polyhedral) (hnet : d.net = m.net.dual) :
    m.mirrorGyro.Renames d.gyroDesign.net (Site.turned m.net) (Patch.turned m.net) := by
  obtain ⟨hsimple, hm⟩ := polyhedral_iff.1 h
  refine .of_runs (surface_mirrorGyro h) (surface_gyro hd.toSurface) (fun p' s' t' => ?_) ?_ ?_
  · rw [runs_gyro hd.simple, hnet]
    constructor
    · rintro ⟨v, f, g, e, hc, rfl, hst⟩
      obtain ⟨u, w, hcorner, hf, he⟩ := Net.corner_dual_iff.1 hc
      obtain ⟨s, t, hts, rfl, rfl⟩ :=
        (mem_cycleEdges_gyroRing_turned hm.toSurface hcorner hf he).1 hst
      exact ⟨.corner g w, s, t, (runs_mirrorGyro h).2 ⟨g, u, v, w, hcorner, rfl, hts⟩,
        Patch.turned_corner hm.toSurface hcorner.leaves hf, rfl, rfl⟩
    · rintro ⟨p, s, t, hr, rfl, rfl, rfl⟩
      obtain ⟨g, u, v, w, hcorner, rfl, hts⟩ := (runs_mirrorGyro h).1 hr
      obtain ⟨f, e, hc, hf, he⟩ := hm.exists_corner_dual hcorner
      exact ⟨v, f, g, e, hc, Patch.turned_corner hm.toSurface hcorner.leaves hf,
        (mem_cycleEdges_gyroRing_turned hm.toSurface hcorner hf he).2 ⟨s, t, hts, rfl, rfl⟩⟩
  · exact fun p q s t hs ht heq => turned_inj h hs ht heq
  · rintro p q s t ⟨_, hp⟩ ⟨_, hq⟩ heq
    obtain ⟨g, u, v, w, hc, rfl, -⟩ := (runs_mirrorGyro h).1 hp
    obtain ⟨k, x, y, z, hc', rfl, -⟩ := (runs_mirrorGyro h).1 hq
    obtain ⟨f, hf⟩ := hm.paired g v w hc.leaves
    obtain ⟨l, hl⟩ := hm.paired k y z hc'.leaves
    rw [Patch.turned_corner hm.toSurface hc.leaves hf,
      Patch.turned_corner hm.toSurface hc'.leaves hl] at heq
    obtain ⟨rfl, rfl⟩ := Patch.corner.inj heq
    obtain rfl := hm.left_unique hf hl
    rw [hm.once g k v w hc.leaves hc'.leaves]

/-- The gyro of the dual has the size of the gyro. -/
theorem Polyhedral.sizeFault?_gyro_dual (h : m.Polyhedral) (hd : m.dual = .ok d) :
    d.gyroDesign.sizeFault? = m.gyroDesign.sizeFault? := by
  obtain ⟨-, hfaces, hvertices⟩ := dual_eq_ok hd
  rw [sizeFault?_gyroDesign (h.of_dual hd).1.toSurface, sizeFault?_gyroDesign h.toSurface,
    h.length_edges_dual hd, hfaces, hvertices, Nat.add_comm m.faceCount]

/-- The gyro of the mirror image has the size of the gyro. -/
theorem Polyhedral.sizeFault?_gyro_inverted (h : m.Polyhedral) :
    m.inverted.gyroDesign.sizeFault? = m.gyroDesign.sizeFault? := by
  have hsurface := h.inverted.toSurface
  rw [sizeFault?_gyroDesign hsurface, sizeFault?_gyroDesign h.toSurface,
    hsurface.two_mul_length_edges, h.toSurface.two_mul_length_edges,
    length_directedEdges_inverted, vertexCount_inverted, faceCount_inverted]

/-- What gyro does not make too large is not too large itself. -/
theorem Surface.withinLimits_of_gyro (h : m.Surface) (hsize : m.gyroDesign.sizeFault? = none) :
    m.WithinLimits := by
  obtain ⟨hvertices, -⟩ := oversize?_eq_none.1 ((sizeFault?_gyroDesign h).symm.trans hsize)
  have hlimits : maxFaces = maxVertices := rfl
  constructor <;> omega

theorem Polyhedral.exists_gyro (h : m.Polyhedral) (hsize : m.gyroDesign.sizeFault? = none) :
    ∃ g, m.gyro.outcome = .ok g ∧ g.Polyhedral ∧ m.gyroDesign.net.Isomorphic g.net := by
  obtain ⟨g, hg, hbuilt⟩ := m.exists_built ['g'] (polyhedral_gyro h.toSurface) hsize
  exact ⟨g, h.toProper.outcome_gyro.trans hg, hbuilt⟩

/--
A polyhedron has a dual, and the gyro of the dual is the same oriented surface as
the mirror image of the gyro of the mirror image: the gyro that is turned the other
way.  If these gyros have too many vertices or faces then both are refused.
-/
theorem Polyhedral.gyro_dual (h : m.Polyhedral) :
    (∀ e, oversize? (m.vertexCount + m.faceCount + 2 * m.edges.length) (2 * m.edges.length) =
        some e → m.inverted.gyro.outcome = .error e ∧
          ∀ d, m.dual = .ok d → d.gyro.outcome = .error e) ∧
      (oversize? (m.vertexCount + m.faceCount + 2 * m.edges.length) (2 * m.edges.length) = none →
        ∃ d g k, m.dual = .ok d ∧ d.gyro.outcome = .ok g ∧ m.inverted.gyro.outcome = .ok k ∧
          g.Isomorphic k.inverted) := by
  rw [← sizeFault?_gyroDesign h.toSurface]
  refine ⟨fun e hsize => ⟨?_, fun d hd => ?_⟩, fun hsize => ?_⟩
  · exact h.inverted.toProper.gyro_eq_error (h.sizeFault?_gyro_inverted.trans hsize)
  · exact (h.of_dual hd).1.toProper.gyro_eq_error ((h.sizeFault?_gyro_dual hd).trans hsize)
  obtain ⟨d, hd, hpoly, hnet⟩ := h.exists_dual (h.toSurface.withinLimits_of_gyro hsize)
  obtain ⟨g, hg, hgpoly, hgnet⟩ := hpoly.exists_gyro ((h.sizeFault?_gyro_dual hd).trans hsize)
  obtain ⟨k, hk, hkpoly, hknet⟩ :=
    h.inverted.exists_gyro (h.sizeFault?_gyro_inverted.trans hsize)
  refine ⟨d, g, k, hd, hg, hk, (isomorphic_iff_net hgpoly.toSurface hkpoly.inverted.toSurface).2 ?_⟩
  have hback := hgnet.symm (surface_gyro hpoly.toSurface)
  have hdual : m.mirrorGyro.Isomorphic d.gyroDesign.net := ⟨_, _, renames_gyro_dual h hpoly hnet⟩
  rw [net_inverted]
  exact hback.trans ((hdual.symm (surface_mirrorGyro h)).trans
    (hknet.opposite (surface_gyro h.inverted.toSurface)))

/-- The gyro of the dual of the cube is the other gyro of the cube. -/
theorem Polyhedral.gyro_dual_cube :
    cube.Polyhedral ∧ ∃ d g k, cube.dual = .ok d ∧ d.gyro.outcome = .ok g ∧
      cube.inverted.gyro.outcome = .ok k ∧ g.Isomorphic k.inverted :=
  have hpoly : cube.Polyhedral := spherical_cube.toPolyhedral
  ⟨hpoly, (Polyhedral.gyro_dual hpoly).2 (by rw [length_edges_cube]; decide)⟩

end Mesh

end Polyhedra
