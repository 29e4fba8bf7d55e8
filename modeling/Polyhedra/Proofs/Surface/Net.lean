import Polyhedra.Proofs.Surface.Cycle

/-!
# Nets

A net is what is left of a surface when positions are forgotten and vertices and
faces may be named by anything: which vertices there are, and which face runs
from which vertex to which.  Meshes have nets, and so have the blueprints from
which meshes are assembled, where labels take the place of numbers.

On a surface (`Net.Surface`) every face runs round a ring of vertices, every
edge is run along once each way, and the faces at each vertex form one star.
On that of a polyhedron two vertices that two faces share are joined by an edge
of both.

## Main results

* `Net.Surface.exists_spokes` — the faces at a vertex and its edges come in the same order.
* `Net.Surface.not_reversed` — two faces never meet at a vertex in both edges.
* `Net.Surface.of_wheels` — a surface is told by the faces that leave each vertex.
* `Net.Polyhedral.shared` — two faces share two vertices at most.
* `Net.Renames.polyhedral` — renaming keeps the surface of a polyhedron.
-/

namespace Polyhedra

/-- Vertices, and faces that run from vertex to vertex. -/
@[ext]
structure Net (V F : Type) where
  IsVertex : V → Prop
  Runs : F → V → V → Prop

namespace Net

variable {V F V' F' : Type}

/-- The face goes through the vertex. -/
def Touches (N : Net V F) (f : F) (v : V) : Prop := ∃ w, N.Runs f v w

/-- Three consecutive vertices of a face. -/
structure Corner (N : Net V F) (f : F) (u v w : V) : Prop where
  enters : N.Runs f u v
  leaves : N.Runs f v w

/-- The face runs round the cycle. -/
structure Ring (N : Net V F) (f : F) (ring : List V) : Prop where
  nodup : ring.Nodup
  three_le : 3 ≤ ring.length
  runs_iff : ∀ v w, N.Runs f v w ↔ (v, w) ∈ cycleEdges ring

/-- The faces at a vertex, in the order in which they follow one another across its edges. -/
structure Star (N : Net V F) (v : V) (around : List F) : Prop where
  nodup : around.Nodup
  three_le : 3 ≤ around.length
  mem_iff : ∀ f, f ∈ around ↔ N.Touches f v
  across : ∀ f g, (f, g) ∈ cycleEdges around → ∃ w, N.Runs f w v ∧ N.Runs g v w

/--
The vertices that faces leave `v` for, in the order in which they follow one
another round `v`: a face that leaves for one of them has come from the next one.
-/
structure Spokes (N : Net V F) (v : V) (spokes : List V) : Prop where
  nodup : spokes.Nodup
  three_le : 3 ≤ spokes.length
  mem_iff : ∀ w, w ∈ spokes ↔ ∃ f, N.Runs f v w
  across : ∀ w u, (w, u) ∈ cycleEdges spokes → ∃ f, N.Corner f u v w

/--
The face leaves each vertex that it comes to, in one way, and comes to it in one
way.  It may run round several rings, and round rings of two.
-/
structure Circulates (N : Net V F) (f : F) : Prop where
  right_unique : ∀ u v w, N.Runs f u v → N.Runs f u w → v = w
  left_unique : ∀ u v w, N.Runs f u w → N.Runs f v w → u = v
  exists_next : ∀ u v, N.Runs f u v → ∃ w, N.Runs f v w

/-- Every face runs round a ring. -/
def Ringed (N : Net V F) : Prop := ∀ f v w, N.Runs f v w → ∃ ring, N.Ring f ring

/-- A closed surface. -/
structure Surface (N : Net V F) : Prop where
  isVertex : ∀ f v w, N.Runs f v w → N.IsVertex v
  exists_ring : ∀ f v w, N.Runs f v w → ∃ ring, N.Ring f ring
  once : ∀ f g v w, N.Runs f v w → N.Runs g v w → f = g
  paired : ∀ f v w, N.Runs f v w → ∃ g, N.Runs g w v
  exists_star : ∀ v, N.IsVertex v → ∃ around, N.Star v around

/-- A closed surface on which faces that share two vertices have an edge between them. -/
structure Polyhedral (N : Net V F) : Prop extends Surface N where
  meet : ∀ f g u v, f ≠ g → u ≠ v → N.Touches f u → N.Touches g u → N.Touches f v →
    N.Touches g v → N.Runs f u v ∨ N.Runs f v u

attribute [grind →] Surface.once Corner.enters Corner.leaves
attribute [grind .] Corner.mk

variable {N : Net V F} {f g : F} {u v w x : V}

/-! ## Rings -/

theorem Ring.touches_iff {ring : List V} (h : N.Ring f ring) : N.Touches f v ↔ v ∈ ring := by
  constructor
  · rintro ⟨w, hw⟩
    exact mem_left_of_mem_cycleEdges ((h.runs_iff v w).1 hw)
  · intro hv
    obtain ⟨w, hw⟩ := exists_mem_cycleEdges_left hv
    exact ⟨w, (h.runs_iff v w).2 hw⟩

/-- Two stars of a vertex have the same faces. -/
theorem Star.length_eq {around around' : List F} (h : N.Star v around) (h' : N.Star v around') :
    around.length = around'.length := by
  refine ((List.perm_ext_iff_of_nodup h.nodup h'.nodup).2 fun f => ?_).length_eq
  rw [h.mem_iff, h'.mem_iff]

theorem Ring.exists_touches {ring : List V} (h : N.Ring f ring) : ∃ v, N.Touches f v := by
  have hthree := h.three_le
  obtain ⟨v, hv⟩ := List.exists_mem_of_length_pos (show 0 < ring.length by omega)
  exact ⟨v, h.touches_iff.2 hv⟩

theorem Ring.circulates {ring : List V} (h : N.Ring f ring) : N.Circulates f where
  right_unique u v w huv huw :=
    cycleEdges_right_unique h.nodup ((h.runs_iff u v).1 huv) ((h.runs_iff u w).1 huw)
  left_unique u v w huw hvw :=
    cycleEdges_left_unique h.nodup ((h.runs_iff u w).1 huw) ((h.runs_iff v w).1 hvw)
  exists_next u v huv := by
    obtain ⟨w, hw⟩ :=
      exists_mem_cycleEdges_left (mem_right_of_mem_cycleEdges ((h.runs_iff u v).1 huv))
    exact ⟨w, (h.runs_iff v w).2 hw⟩

/-- A star is made of touching faces, since each of them has a place between two others. -/
theorem Star.of_across {around : List F} (hnodup : around.Nodup) (hthree : 3 ≤ around.length)
    (hmem : ∀ f, N.Touches f v → f ∈ around)
    (hacross : ∀ f g, (f, g) ∈ cycleEdges around → ∃ w, N.Runs f w v ∧ N.Runs g v w) :
    N.Star v around where
  nodup := hnodup
  three_le := hthree
  mem_iff g := by
    refine ⟨fun hg => ?_, hmem g⟩
    obtain ⟨f, hf⟩ := exists_mem_cycleEdges_right hg
    obtain ⟨w, _, hw⟩ := hacross f g hf
    exact ⟨w, hw⟩
  across := hacross

namespace Ringed

variable (h : N.Ringed)
include h

theorem right_unique (hv : N.Runs f u v) (hw : N.Runs f u w) : v = w := by
  obtain ⟨ring, hring⟩ := h f u v hv
  exact hring.circulates.right_unique u v w hv hw

theorem left_unique (hu : N.Runs f u w) (hv : N.Runs f v w) : u = v := by
  obtain ⟨ring, hring⟩ := h f u w hu
  exact hring.circulates.left_unique u v w hu hv

theorem ne (huv : N.Runs f u v) : u ≠ v := by
  obtain ⟨ring, hring⟩ := h f u v huv
  exact ne_of_mem_cycleEdges hring.nodup (by have := hring.three_le; omega)
    ((hring.runs_iff _ _).1 huv)

theorem not_back (huv : N.Runs f u v) : ¬ N.Runs f v u := by
  obtain ⟨ring, hring⟩ := h f u v huv
  rw [hring.runs_iff] at huv ⊢
  exact not_mem_cycleEdges_swap hring.nodup hring.three_le huv

/-- A face that comes to a vertex leaves it again. -/
theorem exists_leaves (huv : N.Runs f u v) : ∃ w, N.Corner f u v w := by
  obtain ⟨ring, hring⟩ := h f u v huv
  obtain ⟨w, hw⟩ := hring.circulates.exists_next u v huv
  exact ⟨w, huv, hw⟩

/-- A face that leaves a vertex has come there. -/
theorem exists_enters (hvw : N.Runs f v w) : ∃ u, N.Corner f u v w := by
  obtain ⟨ring, hring⟩ := h f v w hvw
  obtain ⟨u, hu⟩ :=
    exists_mem_cycleEdges_right (mem_left_of_mem_cycleEdges ((hring.runs_iff _ _).1 hvw))
  exact ⟨u, (hring.runs_iff _ _).2 hu, hvw⟩

theorem ne_ends (hc : N.Corner f u v w) : u ≠ w := by
  rintro rfl
  exact h.not_back hc.enters hc.leaves

/-- A corner is told by its face and the vertex in its middle. -/
theorem eq_of_middle {u' w' : V} (hc : N.Corner f u v w) (hc' : N.Corner f u' v w') :
    u = u' ∧ w = w' :=
  ⟨h.left_unique hc.enters hc'.enters, h.right_unique hc.leaves hc'.leaves⟩

end Ringed

namespace Surface

variable (h : N.Surface)
include h

theorem ringed : N.Ringed := h.exists_ring

@[grind →]
theorem right_unique (hv : N.Runs f u v) (hw : N.Runs f u w) : v = w :=
  h.ringed.right_unique hv hw

@[grind →]
theorem left_unique (hu : N.Runs f u w) (hv : N.Runs f v w) : u = v :=
  h.ringed.left_unique hu hv

@[grind →]
theorem ne (huv : N.Runs f u v) : u ≠ v := h.ringed.ne huv

@[grind →]
theorem not_back (huv : N.Runs f u v) : ¬ N.Runs f v u := h.ringed.not_back huv

theorem exists_leaves (huv : N.Runs f u v) : ∃ w, N.Corner f u v w := h.ringed.exists_leaves huv

theorem exists_enters (hvw : N.Runs f v w) : ∃ u, N.Corner f u v w := h.ringed.exists_enters hvw

theorem touches_right (huv : N.Runs f u v) : N.Touches f v := by
  obtain ⟨w, hw⟩ := h.exists_leaves huv
  exact ⟨w, hw.leaves⟩

theorem isVertex_right (huv : N.Runs f u v) : N.IsVertex v := by
  obtain ⟨w, hw⟩ := h.touches_right huv
  exact h.isVertex f v w hw

theorem isVertex_of_star {around : List F} (hstar : N.Star v around) : N.IsVertex v := by
  have hthree := hstar.three_le
  obtain ⟨f, hf⟩ := List.exists_mem_of_length_pos (show 0 < around.length by omega)
  obtain ⟨w, hw⟩ := (hstar.mem_iff f).1 hf
  exact h.isVertex f v w hw

/-- In the star of a vertex the face across an edge comes next. -/
theorem mem_star_of_runs {around : List F} (hstar : N.Star v around) (hf : N.Runs f w v)
    (hg : N.Runs g v w) : (f, g) ∈ cycleEdges around := by
  obtain ⟨g', hg'⟩ := exists_mem_cycleEdges_left ((hstar.mem_iff f).2 (h.touches_right hf))
  obtain ⟨w', hw', hgw'⟩ := hstar.across f g' hg'
  obtain rfl := h.left_unique hf hw'
  rwa [h.once g g' v w hg hgw']

/--
A star, with the vertex from which each of its faces comes: the next face leaves
for it.
-/
theorem exists_star_before (hv : N.IsVertex v) :
    ∃ (around : List F) (before : F → V), N.Star v around ∧
      (∀ f ∈ around, ∃ w, N.Corner f (before f) v w) ∧
      ∀ f g, (f, g) ∈ cycleEdges around ↔ f ∈ around ∧ N.Runs g v (before f) := by
  obtain ⟨around, hstar⟩ := h.exists_star v hv
  have enters : ∀ f, ∃ u, f ∈ around → ∃ w, N.Corner f u v w := by
    intro f
    by_cases hf : f ∈ around
    · obtain ⟨w, hw⟩ := (hstar.mem_iff f).1 hf
      obtain ⟨u, hu⟩ := h.exists_enters hw
      exact ⟨u, fun _ => ⟨w, hu⟩⟩
    · exact ⟨v, fun hmem => absurd hmem hf⟩
  choose before hbefore using enters
  refine ⟨around, before, hstar, hbefore, fun f g => ⟨fun hfg => ?_, fun ⟨hf, hg⟩ => ?_⟩⟩
  · have hf := mem_left_of_mem_cycleEdges hfg
    obtain ⟨w, hw, hgw⟩ := hstar.across f g hfg
    obtain ⟨_, hcorner⟩ := hbefore f hf
    rw [h.left_unique hcorner.enters hw]
    exact ⟨hf, hgw⟩
  · obtain ⟨_, hcorner⟩ := hbefore f hf
    exact h.mem_star_of_runs hstar hcorner.enters hg

/-- A vertex has as many spokes as there are faces in its star. -/
theorem exists_spokes (hv : N.IsVertex v) :
    ∃ around spokes, N.Star v around ∧ N.Spokes v spokes ∧ spokes.length = around.length := by
  obtain ⟨around, before, hstar, hbefore, hnext⟩ := h.exists_star_before hv
  refine ⟨around, around.map before, hstar, ⟨?_, ?_, fun w => ?_, fun w u hwu => ?_⟩,
    List.length_map _⟩
  · refine hstar.nodup.map_on fun f hf g hg heq => ?_
    obtain ⟨_, hcf⟩ := hbefore f hf
    obtain ⟨_, hcg⟩ := hbefore g hg
    exact h.once f g (before f) v hcf.enters (heq ▸ hcg.enters)
  · rw [List.length_map]
    exact hstar.three_le
  · rw [List.mem_map]
    constructor
    · rintro ⟨f, hf, rfl⟩
      obtain ⟨_, hc⟩ := hbefore f hf
      exact h.paired f _ v hc.enters
    · rintro ⟨g, hg⟩
      obtain ⟨f, hf⟩ := h.paired g v w hg
      have hmem := (hstar.mem_iff f).2 (h.touches_right hf)
      obtain ⟨_, hc⟩ := hbefore f hmem
      exact ⟨f, hmem, h.left_unique hc.enters hf⟩
  · obtain ⟨f, g, hfg, rfl, rfl⟩ := mem_cycleEdges_map.1 hwu
    obtain ⟨_, hc⟩ := hbefore g (mem_right_of_mem_cycleEdges hfg)
    exact ⟨g, hc.enters, ((hnext f g).1 hfg).2⟩

/-- Two faces never run through a vertex the same way in opposite directions. -/
@[grind →]
theorem not_reversed (hf : N.Corner f u v w) (hg : N.Corner g w v u) : False := by
  obtain ⟨around, hstar⟩ := h.exists_star v (h.isVertex_right hf.enters)
  have hfg := h.mem_star_of_runs hstar hf.enters hg.leaves
  have hgf := h.mem_star_of_runs hstar hg.enters hf.leaves
  exact not_mem_cycleEdges_swap hstar.nodup hstar.three_le hfg hgf

end Surface

/-- The spokes of a vertex follow one another just as its corners say. -/
theorem Spokes.mem_cycleEdges_iff {spokes : List V} (hs : N.Spokes v spokes) (h : N.Surface) :
    (w, u) ∈ cycleEdges spokes ↔ ∃ f, N.Corner f u v w := by
  refine ⟨hs.across w u, fun ⟨f, hc⟩ => ?_⟩
  obtain ⟨x, hx⟩ := exists_mem_cycleEdges_left ((hs.mem_iff w).2 ⟨f, hc.leaves⟩)
  obtain ⟨g, hc'⟩ := hs.across w x hx
  obtain rfl := h.once f g v w hc.leaves hc'.leaves
  rwa [h.left_unique hc.enters hc'.enters]

namespace Corner

variable (h : N.Surface)
include h

@[grind →]
theorem ne_ends (hc : N.Corner f u v w) : u ≠ w := h.ringed.ne_ends hc

/-- A corner is told by its first edge. -/
theorem eq_of_enters (hc : N.Corner f u v w) (hc' : N.Corner g u v x) : f = g ∧ w = x := by
  obtain rfl := h.once f g u v hc.enters hc'.enters
  exact ⟨rfl, h.right_unique hc.leaves hc'.leaves⟩

theorem eq_of_middle {u' w' : V} (hc : N.Corner f u v w) (hc' : N.Corner f u' v w') :
    u = u' ∧ w = w' :=
  h.ringed.eq_of_middle hc hc'

end Corner

/-! ## Wheels -/

/--
The faces that leave a vertex, each with where it goes, in the order in which
they follow one another: a face comes from where the next one goes.
-/
structure Wheel (N : Net V F) (v : V) (wheel : List (F × V)) : Prop where
  faces_nodup : (wheel.map Prod.fst).Nodup
  spokes_nodup : (wheel.map Prod.snd).Nodup
  three_le : 3 ≤ wheel.length
  runs_iff : ∀ f w, N.Runs f v w ↔ (f, w) ∈ wheel
  across : ∀ x y, (x, y) ∈ cycleEdges wheel → N.Runs x.1 y.2 v

theorem Wheel.star {wheel : List (F × V)} (h : N.Wheel v wheel) :
    N.Star v (wheel.map Prod.fst) := by
  refine .of_across h.faces_nodup ?_ (fun f hf => ?_) fun f g hfg => ?_
  · rw [List.length_map]
    exact h.three_le
  · obtain ⟨w, hw⟩ := hf
    exact List.mem_map_of_mem ((h.runs_iff f w).1 hw)
  · obtain ⟨x, y, hxy, rfl, rfl⟩ := mem_cycleEdges_map.1 hfg
    exact ⟨y.2, h.across x y hxy, (h.runs_iff _ _).2 (mem_right_of_mem_cycleEdges hxy)⟩

/-- A net is a closed surface if its faces are rings and its vertices have wheels. -/
theorem Surface.of_wheels (hvertex : ∀ f v w, N.Runs f v w → N.IsVertex v)
    (hring : ∀ f v w, N.Runs f v w → ∃ ring, N.Ring f ring)
    (hwheel : ∀ v, N.IsVertex v → ∃ wheel, N.Wheel v wheel) : N.Surface where
  isVertex := hvertex
  exists_ring := hring
  once f g v w hf hg := by
    obtain ⟨wheel, h⟩ := hwheel v (hvertex f v w hf)
    have heq := List.inj_on_of_nodup_map h.spokes_nodup ((h.runs_iff f w).1 hf)
      ((h.runs_iff g w).1 hg) rfl
    exact congrArg Prod.fst heq
  paired f v w hr := by
    obtain ⟨wheel, h⟩ := hwheel v (hvertex f v w hr)
    obtain ⟨x, hx⟩ := exists_mem_cycleEdges_right ((h.runs_iff f w).1 hr)
    exact ⟨x.1, h.across _ _ hx⟩
  exists_star v hv := by
    obtain ⟨wheel, h⟩ := hwheel v hv
    exact ⟨_, h.star⟩

/-! ## Faces that share vertices -/

namespace Polyhedral

/-- A vertex that edges of a face join to two others is the middle of a corner. -/
private theorem corner_of_joined (h : N.Surface) (hne : u ≠ w)
    (huv : N.Runs f u v ∨ N.Runs f v u) (hvw : N.Runs f v w ∨ N.Runs f w v) :
    N.Corner f u v w ∨ N.Corner f w v u := by
  rcases huv with huv | hvu
  · rcases hvw with hvw | hwv
    · exact .inl ⟨huv, hvw⟩
    · exact absurd (h.left_unique huv hwv) hne
  · rcases hvw with hvw | hwv
    · exact absurd (h.right_unique hvu hvw) hne
    · exact .inr ⟨hwv, hvu⟩

/-- Two faces share two vertices at most. -/
theorem shared (h : N.Polyhedral) (hfg : f ≠ g) (huv : u ≠ v) (hfu : N.Touches f u)
    (hgu : N.Touches g u) (hfv : N.Touches f v) (hgv : N.Touches g v) (hfw : N.Touches f w)
    (hgw : N.Touches g w) : w = u ∨ w = v := by
  by_contra hne
  push Not at hne
  obtain ⟨hwu, hwv⟩ := hne
  have hf := corner_of_joined h.toSurface hwu.symm (h.meet f g u v hfg huv hfu hgu hfv hgv)
    (h.meet f g v w hfg hwv.symm hfv hgv hfw hgw)
  have hg := corner_of_joined h.toSurface hwu.symm
    (h.meet g f u v hfg.symm huv hgu hfu hgv hfv)
    (h.meet g f v w hfg.symm hwv.symm hgv hfv hgw hfw)
  -- run the same way they are one face, and run the other way they meet in two edges
  rcases hf with hf | hf <;> rcases hg with hg | hg
  · exact hfg (h.once f g u v hf.enters hg.enters)
  · exact h.not_reversed hf hg
  · exact h.not_reversed hf hg
  · exact hfg (h.once f g w v hf.enters hg.enters)

/-- Two faces run along an edge that they share in opposite directions. -/
theorem meet_opposite (h : N.Polyhedral) (hfg : f ≠ g) (huv : u ≠ v) (hfu : N.Touches f u)
    (hgu : N.Touches g u) (hfv : N.Touches f v) (hgv : N.Touches g v) :
    (N.Runs f u v ∧ N.Runs g v u) ∨ (N.Runs f v u ∧ N.Runs g u v) := by
  rcases h.meet f g u v hfg huv hfu hgu hfv hgv with hf | hf <;>
    rcases h.meet g f u v hfg.symm huv hgu hfu hgv hfv with hg | hg
  · exact absurd (h.once f g u v hf hg) hfg
  · exact .inl ⟨hf, hg⟩
  · exact .inr ⟨hf, hg⟩
  · exact absurd (h.once f g v u hf hg) hfg

/-- Two faces have one edge in common at most. -/
theorem edge_unique (h : N.Polyhedral) (hf : N.Runs f u v) (hg : N.Runs g v u) (hf' : N.Runs f w x)
    (hg' : N.Runs g x w) : u = w ∧ v = x := by
  have hfg : f ≠ g := by
    rintro rfl
    exact h.not_back hf hg
  have shared : ∀ {y}, N.Touches f y → N.Touches g y → y = u ∨ y = v := fun hy hy' =>
    h.shared hfg (h.ne hf) ⟨_, hf⟩ (h.touches_right hg) (h.touches_right hf) ⟨_, hg⟩ hy hy'
  have hw := shared ⟨x, hf'⟩ (h.touches_right hg')
  have hx := shared (h.touches_right hf') ⟨w, hg'⟩
  have hwx := h.ne hf'
  rcases hw with rfl | rfl
  · exact ⟨rfl, (hx.resolve_left hwx.symm).symm⟩
  · obtain rfl := hx.resolve_right hwx.symm
    exact absurd hf' (h.not_back hf)

/-- Three faces have one vertex in common at most. -/
theorem common_unique {e : F} (h : N.Polyhedral) (hfg : f ≠ g) (hge : g ≠ e) (hfe : f ≠ e)
    (hfu : N.Touches f u) (hgu : N.Touches g u) (heu : N.Touches e u) (hfv : N.Touches f v)
    (hgv : N.Touches g v) (hev : N.Touches e v) : u = v := by
  by_contra huv
  -- each two of them run along the edge in opposite directions, which three cannot
  rcases h.meet_opposite hfg huv hfu hgu hfv hgv with ⟨hf, hg⟩ | ⟨hf, hg⟩ <;>
    rcases h.meet_opposite hge huv hgu heu hgv hev with ⟨hg', he⟩ | ⟨hg', he⟩
  · exact h.not_back hg hg'
  · exact hfe (h.once f e u v hf he)
  · exact hfe (h.once f e v u hf he)
  · exact h.not_back hg hg'

end Polyhedral

/-! ## Renaming -/

/-- The second net is the first one with vertices and faces renamed. -/
structure Renames (N : Net V F) (N' : Net V' F') (φ : V → V') (ψ : F → F') : Prop where
  isVertex_iff : ∀ v', N'.IsVertex v' ↔ ∃ v, N.IsVertex v ∧ φ v = v'
  runs_iff : ∀ f' v' w', N'.Runs f' v' w' ↔
    ∃ f v w, N.Runs f v w ∧ ψ f = f' ∧ φ v = v' ∧ φ w = w'
  vertex_inj : ∀ v w, N.IsVertex v → N.IsVertex w → φ v = φ w → v = w
  face_inj : ∀ f g v w, N.Touches f v → N.Touches g w → ψ f = ψ g → f = g

namespace Renames

variable {N' : Net V' F'} {φ : V → V'} {ψ : F → F'}

theorem runs (h : N.Renames N' φ ψ) (hr : N.Runs f v w) : N'.Runs (ψ f) (φ v) (φ w) :=
  (h.runs_iff _ _ _).2 ⟨f, v, w, hr, rfl, rfl, rfl⟩

theorem ring (h : N.Renames N' φ ψ) (hN : N.Surface) {ring : List V} (hring : N.Ring f ring) :
    N'.Ring (ψ f) (ring.map φ) where
  nodup := by
    refine hring.nodup.map_on fun v hv w hw => ?_
    obtain ⟨v', hv'⟩ := hring.touches_iff.2 hv
    obtain ⟨w', hw'⟩ := hring.touches_iff.2 hw
    exact h.vertex_inj v w (hN.isVertex _ _ _ hv') (hN.isVertex _ _ _ hw')
  three_le := by
    rw [List.length_map]
    exact hring.three_le
  runs_iff v' w' := by
    rw [h.runs_iff, mem_cycleEdges_map]
    constructor
    · rintro ⟨g, v, w, hg, hgf, rfl, rfl⟩
      obtain ⟨x, hf⟩ := hring.exists_touches
      obtain rfl := h.face_inj g f v x ⟨w, hg⟩ hf hgf
      exact ⟨v, w, (hring.runs_iff v w).1 hg, rfl, rfl⟩
    · rintro ⟨v, w, hvw, rfl, rfl⟩
      exact ⟨f, v, w, (hring.runs_iff v w).2 hvw, rfl, rfl, rfl⟩

theorem touches (h : N.Renames N' φ ψ) (hN : N.Surface) (hv : N.IsVertex v) {f' : F'}
    (hf : N'.Touches f' (φ v)) : ∃ f, ψ f = f' ∧ N.Touches f v := by
  obtain ⟨w', hw'⟩ := hf
  obtain ⟨f, v', w, hr, rfl, hv', rfl⟩ := (h.runs_iff _ _ _).1 hw'
  obtain rfl := h.vertex_inj v' v (hN.isVertex _ _ _ hr) hv hv'
  exact ⟨f, rfl, w, hr⟩

theorem star (h : N.Renames N' φ ψ) (hN : N.Surface) (hv : N.IsVertex v) {around : List F}
    (hstar : N.Star v around) : N'.Star (φ v) (around.map ψ) := by
  refine .of_across ?_ ?_ (fun f' hf' => ?_) fun f' g' hfg' => ?_
  · refine hstar.nodup.map_on fun f hf g hg => ?_
    exact h.face_inj f g v v ((hstar.mem_iff f).1 hf) ((hstar.mem_iff g).1 hg)
  · rw [List.length_map]
    exact hstar.three_le
  · obtain ⟨f, rfl, hf⟩ := h.touches hN hv hf'
    exact List.mem_map_of_mem ((hstar.mem_iff f).2 hf)
  · obtain ⟨f, g, hfg, rfl, rfl⟩ := mem_cycleEdges_map.1 hfg'
    obtain ⟨w, hf, hg⟩ := hstar.across f g hfg
    exact ⟨φ w, h.runs hf, h.runs hg⟩

/-- Renaming keeps closed surfaces. -/
theorem surface (h : N.Renames N' φ ψ) (hN : N.Surface) : N'.Surface where
  isVertex f' v' w' hr' := by
    obtain ⟨f, v, w, hr, -, rfl, -⟩ := (h.runs_iff _ _ _).1 hr'
    exact (h.isVertex_iff _).2 ⟨v, hN.isVertex f v w hr, rfl⟩
  exists_ring f' v' w' hr' := by
    obtain ⟨f, v, w, hr, rfl, -, -⟩ := (h.runs_iff _ _ _).1 hr'
    obtain ⟨ring, hring⟩ := hN.exists_ring f v w hr
    exact ⟨_, h.ring hN hring⟩
  once f' g' v' w' hf' hg' := by
    obtain ⟨f, v, w, hf, rfl, rfl, rfl⟩ := (h.runs_iff _ _ _).1 hf'
    obtain ⟨g, x, y, hg, rfl, hxv, hyw⟩ := (h.runs_iff _ _ _).1 hg'
    obtain rfl := h.vertex_inj x v (hN.isVertex _ _ _ hg) (hN.isVertex _ _ _ hf) hxv
    obtain rfl := h.vertex_inj y w (hN.isVertex_right hg) (hN.isVertex_right hf) hyw
    rw [hN.once f g _ _ hf hg]
  paired f' v' w' hr' := by
    obtain ⟨f, v, w, hr, rfl, rfl, rfl⟩ := (h.runs_iff _ _ _).1 hr'
    obtain ⟨g, hg⟩ := hN.paired f v w hr
    exact ⟨ψ g, h.runs hg⟩
  exists_star v' hv' := by
    obtain ⟨v, hv, rfl⟩ := (h.isVertex_iff _).1 hv'
    obtain ⟨around, hstar⟩ := hN.exists_star v hv
    exact ⟨_, h.star hN hv hstar⟩

/-- Renaming keeps the surface of a polyhedron. -/
theorem polyhedral (h : N.Renames N' φ ψ) (hN : N.Polyhedral) : N'.Polyhedral where
  toSurface := h.surface hN.toSurface
  meet f' g' u' v' hfg' huv' hfu' hgu' hfv' hgv' := by
    have vertex : ∀ {f' v'}, N'.Touches f' v' → ∃ v, N.IsVertex v ∧ φ v = v' := by
      rintro f' v' ⟨w', hw'⟩
      exact (h.isVertex_iff v').1 ((h.surface hN.toSurface).isVertex _ _ _ hw')
    obtain ⟨u, hu, rfl⟩ := vertex hfu'
    obtain ⟨v, hv, rfl⟩ := vertex hfv'
    obtain ⟨f, rfl, hfu⟩ := h.touches hN.toSurface hu hfu'
    obtain ⟨g, rfl, hgu⟩ := h.touches hN.toSurface hu hgu'
    obtain ⟨f₂, hf₂, hfv⟩ := h.touches hN.toSurface hv hfv'
    obtain ⟨g₂, hg₂, hgv⟩ := h.touches hN.toSurface hv hgv'
    obtain rfl := h.face_inj f₂ f v u hfv hfu hf₂
    obtain rfl := h.face_inj g₂ g v u hgv hgu hg₂
    have hfg : f₂ ≠ g₂ := fun heq => hfg' (congrArg ψ heq)
    have huv : u ≠ v := fun heq => huv' (congrArg φ heq)
    exact (hN.meet f₂ g₂ u v hfg huv hfu hgu hfv hgv).imp h.runs h.runs

end Renames

end Net

end Polyhedra
