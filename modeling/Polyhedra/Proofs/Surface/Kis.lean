import Polyhedra.Proofs.Surface.Designs
import Mathlib.Algebra.BigOperators.Group.List.Basic

/-!
# Kis

Kis raises a pyramid on every selected face: a triangle on each of its edges, all
of them with the centre of the face for a corner.  The other faces stay.  Around
an old vertex each selected face gives way to two of its triangles.

## Main results

* `Mesh.Spherical.kisDesign` — kis keeps spherical polyhedra, whichever faces are
  selected.
-/

namespace Polyhedra

/-- The face that a patch covers in whole or in part, or else the vertex. -/
def Patch.place : Patch → Nat
  | .face i | .vertex i | .corner i _ => i

namespace Mesh

/-- Whether kis raises a pyramid on the face at position `i`. -/
def raised (sides : Option Nat) (m : Mesh) (i : Nat) : Bool := m.faces[i]?.any (selects sides)

/-- The triangle on the edge from `u` to `v` of face `i`. -/
def kisRing (i u v : Nat) : List Site := [.vertex u, .vertex v, .center i]

@[simp] theorem mem_cycleEdges_kisRing {i u v : Nat} {s t : Site} :
    (s, t) ∈ cycleEdges (kisRing i u v) ↔
      (s = .center i ∧ t = .vertex u) ∨ (s = .vertex u ∧ t = .vertex v) ∨
        (s = .vertex v ∧ t = .center i) :=
  mem_cycleEdges_three

theorem mem_kisFlags {b : Bool} {i u v : Nat} {p : Patch} {s t : Site} :
    (⟨p, s, t⟩ : Flag Site Patch) ∈ kisFlags b i u v ↔
      (b = true ∧ p = .corner i u ∧ (s, t) ∈ cycleEdges (kisRing i u v)) ∨
        (b = false ∧ p = .face i ∧ s = .vertex u ∧ t = .vertex v) := by
  cases b
  · simp [kisFlags]
  · simp only [kisFlags, mem_cycleEdges_kisRing, if_true, List.mem_cons, Flag.mk.injEq,
      List.not_mem_nil, or_false, true_and, Bool.true_eq_false, false_and]
    tauto

variable {sides : Option Nat} {m : Mesh} {i j u v w x y : Nat} {p : Patch} {s t : Site}

theorem raised_eq {f : Face} (hf : m.faces[i]? = some f) :
    m.raised sides i = selects sides f := by
  rw [raised, hf, Option.any_some]

theorem raised_iff :
    m.raised sides i = true ↔ ∃ f, m.faces[i]? = some f ∧ selects sides f = true := by
  simp [raised, Option.any_eq_true]

/-- The flags of kis, edge by edge. -/
theorem flags_kis (sides : Option Nat) (m : Mesh) :
    (m.kisDesign sides).flags =
      (edgesWithFace m.faces).flatMap fun e => kisFlags (m.raised sides e.2) e.2 e.1.1 e.1.2 := by
  rw [kisDesign, edgesWithFace, List.flatMap_assoc]
  refine List.flatMap_congr ?_
  rintro ⟨f, i⟩ hf
  simp only [kisFaceFlags, List.flatMap_map, raised_eq (List.mem_zipIdx_iff_getElem?.1 hf)]

theorem runs_kis :
    (m.kisDesign sides).net.Runs p s t ↔
      ∃ i u v, m.net.Runs i u v ∧
        ((m.raised sides i = true ∧ p = .corner i u ∧ (s, t) ∈ cycleEdges (kisRing i u v)) ∨
          (m.raised sides i = false ∧ p = .face i ∧ s = .vertex u ∧ t = .vertex v)) := by
  have hflags : (m.kisDesign sides).net.Runs p s t ↔
      (⟨p, s, t⟩ : Flag Site Patch) ∈ (m.kisDesign sides).flags := Iff.rfl
  rw [hflags, flags_kis, List.mem_flatMap]
  simp only [mem_kisFlags, Prod.exists, mem_edgesWithFace]
  constructor
  · rintro ⟨u, v, i, hr, hflag⟩
    exact ⟨i, u, v, hr, hflag⟩
  · rintro ⟨i, u, v, hr, hflag⟩
    exact ⟨u, v, i, hr, hflag⟩

/-! ## Rings -/

section Rings

variable (h : m.Proper)
include h

theorem ring_kis_corner (hr : m.net.Runs i u v) (hraised : m.raised sides i = true) :
    (m.kisDesign sides).net.Ring (.corner i u) (kisRing i u v) := by
  obtain ⟨f, hf, huv⟩ := id hr
  have hring := ring_net hf (h.simple f (List.mem_of_getElem? hf))
  have hne : u ≠ v := ne_of_mem_cycleEdges hring.nodup (by have := hring.three_le; omega) huv
  refine ⟨by simp [kisRing, hne], by simp [kisRing], fun s t => ?_⟩
  rw [runs_kis]
  constructor
  · rintro ⟨j, x, y, hr', ⟨-, heq, he⟩ | ⟨-, heq, -⟩⟩
    · obtain ⟨rfl, rfl⟩ := Patch.corner.inj heq
      obtain rfl := cycleEdges_right_unique hring.nodup huv ((hring.runs_iff _ _).1 hr')
      exact he
    · simp at heq
  · exact fun he => ⟨i, u, v, hr, .inl ⟨hraised, rfl, he⟩⟩

omit h in
theorem runs_kis_face (hraised : m.raised sides i = false) :
    (m.kisDesign sides).net.Runs (.face i) s t ↔
      ∃ u v, m.net.Runs i u v ∧ s = .vertex u ∧ t = .vertex v := by
  rw [runs_kis]
  constructor
  · rintro ⟨j, u, v, hr, ⟨-, heq, -⟩ | ⟨-, heq, hs⟩⟩
    · simp at heq
    · obtain rfl := Patch.face.inj heq
      exact ⟨u, v, hr, hs⟩
  · rintro ⟨u, v, hr, hs⟩
    exact ⟨i, u, v, hr, .inr ⟨hraised, rfl, hs⟩⟩

/-- A face that is not selected goes round its old vertices. -/
theorem ring_kis_face {f : Face} (hf : m.faces[i]? = some f) (hraised : m.raised sides i = false) :
    (m.kisDesign sides).net.Ring (.face i) (f.map .vertex) := by
  have hring := ring_net hf (h.simple f (List.mem_of_getElem? hf))
  refine ⟨hring.nodup.map fun _ _ heq => Site.vertex.inj heq, ?_, fun s t => ?_⟩
  · rw [List.length_map]
    exact hring.three_le
  · rw [runs_kis_face hraised, mem_cycleEdges_map]
    constructor
    · rintro ⟨u, v, hr, rfl, rfl⟩
      exact ⟨u, v, (hring.runs_iff u v).1 hr, rfl, rfl⟩
    · rintro ⟨u, v, he, rfl, rfl⟩
      exact ⟨u, v, (hring.runs_iff u v).2 he, rfl, rfl⟩

end Rings

/-! ## Stars -/

/-- What covers face `i` at the vertex `v`, to which the face comes from `before i`. -/
def kisPatches (sides : Option Nat) (m : Mesh) (v : Nat) (before : Nat → Nat) (i : Nat) :
    List Patch :=
  if m.raised sides i then [.corner i v, .corner i (before i)] else [.face i]

theorem place_of_mem_kisPatches {before : Nat → Nat} (hp : p ∈ m.kisPatches sides v before i) :
    p.place = i := by
  unfold kisPatches at hp
  split at hp
  · obtain rfl | rfl : p = .corner i v ∨ p = .corner i (before i) := by simpa using hp
    · rfl
    · rfl
  · obtain rfl : p = .face i := by simpa using hp
    rfl

section Stars

variable (h : m.Surface)
include h

private theorem runs_triangle (hr : m.net.Runs i u v) (hraised : m.raised sides i = true)
    (he : (s, t) ∈ cycleEdges (kisRing i u v)) :
    (m.kisDesign sides).net.Runs (.corner i u) s t :=
  ((ring_kis_corner h.toProper hr hraised).runs_iff s t).2 he

/-- Around the centre of a selected face its triangles follow one another. -/
theorem star_kis_center {f : Face} (hf : m.faces[i]? = some f)
    (hraised : m.raised sides i = true) :
    (m.kisDesign sides).net.Star (.center i) (f.map (.corner i ·)) := by
  obtain ⟨hsimple, hnet⟩ := surface_iff.1 h
  have hring := ring_net hf (hsimple f (List.mem_of_getElem? hf))
  refine .of_across ?_ ?_ ?_ ?_
  · exact hring.nodup.map fun _ _ heq => (Patch.corner.inj heq).2
  · rw [List.length_map]
    exact hring.three_le
  · rintro p ⟨t, ht⟩
    obtain ⟨j, x, y, hr, ⟨-, rfl, he⟩ | ⟨-, -, heq, -⟩⟩ := runs_kis.1 ht
    · rw [mem_cycleEdges_kisRing] at he
      obtain ⟨rfl, -⟩ : i = j ∧ t = .vertex x := by simpa using he
      exact List.mem_map_of_mem (hring.touches_iff.1 ⟨y, hr⟩)
    · simp at heq
  · intro p q hpq
    obtain ⟨u, v, huv, rfl, rfl⟩ := mem_cycleEdges_map.1 hpq
    have hr := (hring.runs_iff u v).2 huv
    obtain ⟨w, hc⟩ := hnet.exists_leaves hr
    exact ⟨.vertex v, runs_triangle h hr hraised (by simp),
      runs_triangle h hc.leaves hraised (by simp)⟩

variable {before : Nat → Nat}

/-- The patches of a face follow one another, from the one that leaves the vertex on. -/
theorem across_kisPatches (hc : m.net.Corner i (before i) v w) {q : Patch} {l r : List Patch}
    (heq : m.kisPatches sides v before i = l ++ p :: q :: r) :
    (m.kisDesign sides).net.Runs p (.center i) (.vertex v) ∧
      (m.kisDesign sides).net.Runs q (.vertex v) (.center i) := by
  unfold kisPatches at heq
  split at heq
  · next hraised =>
    obtain ⟨rfl, rfl⟩ : p = .corner i v ∧ q = .corner i (before i) := by
      rcases l with _ | ⟨a, _ | ⟨b, l⟩⟩ <;> simp_all
    exact ⟨runs_triangle h hc.leaves hraised (by simp),
      runs_triangle h hc.enters hraised (by simp)⟩
  · rcases l with _ | ⟨a, l⟩ <;> simp_all

/-- The last patch of a face comes to the vertex where the face does. -/
theorem runs_last_kisPatches (hc : m.net.Corner i (before i) v w)
    (hp : (m.kisPatches sides v before i).getLast? = some p) :
    (m.kisDesign sides).net.Runs p (.vertex (before i)) (.vertex v) := by
  unfold kisPatches at hp
  split at hp
  · next hraised =>
    obtain rfl : Patch.corner i (before i) = p := by simpa using hp
    exact runs_triangle h hc.enters hraised (by simp)
  · next hraised =>
    obtain rfl : Patch.face i = p := by simpa using hp
    exact (runs_kis_face (by simpa using hraised)).2 ⟨_, v, hc.enters, rfl, rfl⟩

/-- The first patch of a face leaves the vertex where the face does. -/
theorem runs_first_kisPatches (hr : m.net.Runs i v w)
    (hp : (m.kisPatches sides v before i).head? = some p) :
    (m.kisDesign sides).net.Runs p (.vertex v) (.vertex w) := by
  unfold kisPatches at hp
  split at hp
  · next hraised =>
    obtain rfl : Patch.corner i v = p := by simpa using hp
    exact runs_triangle h hr hraised (by simp)
  · next hraised =>
    obtain rfl : Patch.face i = p := by simpa using hp
    exact (runs_kis_face (by simpa using hraised)).2 ⟨v, w, hr, rfl, rfl⟩

/-- The patches at a vertex are those of the faces there. -/
theorem mem_kisPatches (hbefore : ∀ i, m.net.Touches i v → ∃ w, m.net.Corner i (before i) v w)
    (hp : (m.kisDesign sides).net.Touches p (.vertex v)) :
    ∃ i, m.net.Touches i v ∧ p ∈ m.kisPatches sides v before i := by
  obtain ⟨-, hnet⟩ := surface_iff.1 h
  obtain ⟨t, ht⟩ := hp
  obtain ⟨i, x, y, hr, ⟨hraised, rfl, he⟩ | ⟨hraised, rfl, heq, -⟩⟩ := runs_kis.1 ht
  · rw [mem_cycleEdges_kisRing] at he
    simp only [reduceCtorEq, false_and, Site.vertex.injEq, false_or] at he
    rcases he with ⟨rfl, -⟩ | ⟨rfl, -⟩
    · exact ⟨i, ⟨y, hr⟩, by simp [kisPatches, hraised]⟩
    · have htouches := hnet.touches_right hr
      obtain ⟨_, hc⟩ := hbefore i htouches
      rw [hnet.left_unique hr hc.enters]
      exact ⟨i, htouches, by simp [kisPatches, hraised]⟩
  · obtain rfl := Site.vertex.inj heq
    exact ⟨i, ⟨y, hr⟩, by simp [kisPatches, hraised]⟩

/-- Around an old vertex the patches of the faces follow one another as the faces do. -/
theorem star_kis_vertex (hv : v < m.vertexCount) :
    ∃ around, (m.kisDesign sides).net.Star (.vertex v) around := by
  obtain ⟨hsimple, hnet⟩ := surface_iff.1 h
  obtain ⟨around, before, hstar, hbefore, hnext⟩ := hnet.exists_star_before hv
  have hnonempty : ∀ i ∈ around, m.kisPatches sides v before i ≠ [] := by
    intro i _
    unfold kisPatches
    split <;> simp
  refine ⟨around.flatMap (m.kisPatches sides v before), .of_across ?_ ?_ (fun p hp => ?_) ?_⟩
  · refine List.nodup_flatMap.2 ⟨fun i hi => ?_, hstar.nodup.imp fun hne p hp hp' => ?_⟩
    · obtain ⟨_, hc⟩ := hbefore i hi
      unfold kisPatches
      split <;> simp [(hnet.ne hc.enters).symm]
    · exact hne ((place_of_mem_kisPatches hp).symm.trans (place_of_mem_kisPatches hp'))
  · have hlength : around.length ≤ (around.flatMap (m.kisPatches sides v before)).length := by
      rw [List.length_flatMap, ← List.length_map fun i => (m.kisPatches sides v before i).length]
      refine List.length_le_sum_of_one_le _ fun n hn => ?_
      obtain ⟨i, hi, rfl⟩ := List.mem_map.1 hn
      exact List.length_pos_iff.2 (hnonempty i hi)
    exact hstar.three_le.trans hlength
  · obtain ⟨i, hi, hp⟩ := mem_kisPatches h (fun i hi => hbefore i ((hstar.mem_iff i).2 hi)) hp
    exact List.mem_flatMap.2 ⟨i, (hstar.mem_iff i).2 hi, hp⟩
  · intro p q hpq
    rcases mem_cycleEdges_flatMap hnonempty hpq with ⟨i, hi, l, r, heq⟩ | ⟨i, j, hij, hp, hq⟩
    · obtain ⟨_, hc⟩ := hbefore i hi
      exact ⟨.center i, across_kisPatches h hc heq⟩
    · obtain ⟨hi, hr⟩ := (hnext i j).1 hij
      obtain ⟨_, hc⟩ := hbefore i hi
      exact ⟨.vertex (before i), runs_last_kisPatches h hc hp, runs_first_kisPatches h hr hq⟩

end Stars

/-! ## Counting -/

/-- The sites in the middle of the selected faces. -/
def raisedSites (sides : Option Nat) (m : Mesh) : List (Site × Point) :=
  ((m.faces.zip (m.centerSites id)).filter fun (f, _) => selects sides f).map Prod.snd

/-- What kis covers each face with: triangles, or the face itself. -/
def kisFaces (sides : Option Nat) (m : Mesh) : List Patch :=
  m.faces.zipIdx.flatMap fun (f, i) =>
    if selects sides f then f.map (.corner i ·) else [.face i]

theorem length_centerSites (m : Mesh) (place : Point → Point) :
    (m.centerSites place).length = m.faces.length := by
  simp [centerSites, faceCenters]

theorem map_fst_zip_centerSites (m : Mesh) :
    (m.faces.zip (m.centerSites id)).map Prod.fst = m.faces := by
  rw [List.map_fst_zip]
  rw [length_centerSites]

theorem length_raisedSites (sides : Option Nat) (m : Mesh) :
    (m.raisedSites sides).length = (m.faces.filter (selects sides)).length := by
  rw [raisedSites, List.length_map]
  conv_rhs => rw [← map_fst_zip_centerSites m, List.filter_map, List.length_map]
  rfl

theorem nodup_keys_raisedSites (sides : Option Nat) (m : Mesh) :
    ((m.raisedSites sides).map Prod.fst).Nodup := by
  have hsites : (m.faces.zip (m.centerSites id)).map Prod.snd = m.centerSites id := by
    rw [List.map_snd_zip]
    rw [length_centerSites]
  have hsub : (m.raisedSites sides).Sublist (m.centerSites id) :=
    hsites ▸ List.filter_sublist.map Prod.snd
  refine (hsub.map Prod.fst).nodup ?_
  rw [keys_centerSites]
  exact List.nodup_range.map fun _ _ heq => Site.center.inj heq

theorem getElem?_centerSites {place : Point → Point} {site : Site × Point}
    (h : (m.centerSites place)[i]? = some site) : site.1 = .center i := by
  have hkeys : ((m.centerSites place).map Prod.fst)[i]? = some site.1 := by
    rw [List.getElem?_map, h, Option.map_some]
  rw [keys_centerSites, List.getElem?_map] at hkeys
  obtain ⟨j, hj, heq⟩ := Option.map_eq_some_iff.1 hkeys
  obtain ⟨hlt, rfl⟩ := List.getElem?_eq_some_iff.1 hj
  rw [← heq, List.getElem_range]

theorem mem_keys_raisedSites :
    s ∈ (m.raisedSites sides).map Prod.fst ↔ ∃ i, m.raised sides i = true ∧ s = .center i := by
  rw [raisedSites, List.map_map, List.mem_map]
  constructor
  · rintro ⟨⟨f, site⟩, hmem, rfl⟩
    obtain ⟨hzip, hselects⟩ := List.mem_filter.1 hmem
    obtain ⟨i, hi⟩ := List.mem_iff_getElem?.1 hzip
    obtain ⟨hf, hsite⟩ := List.getElem?_zip_eq_some.1 hi
    exact ⟨i, raised_iff.2 ⟨f, hf, hselects⟩, getElem?_centerSites hsite⟩
  · rintro ⟨i, hraised, rfl⟩
    obtain ⟨f, hf, hselects⟩ := raised_iff.1 hraised
    have hlt : i < (m.centerSites id).length := by
      rw [length_centerSites]
      exact (List.getElem?_eq_some_iff.1 hf).1
    have hsite := List.getElem?_eq_getElem hlt
    have hzip : (f, (m.centerSites id)[i]) ∈ m.faces.zip (m.centerSites id) :=
      List.mem_of_getElem? (List.getElem?_zip_eq_some.2 ⟨hf, hsite⟩)
    exact ⟨_, List.mem_filter.2 ⟨hzip, hselects⟩, getElem?_centerSites hsite⟩

theorem place_of_mem_kisFaces {f : Face}
    (hp : p ∈ if selects sides f then f.map (.corner i ·) else [.face i]) : p.place = i := by
  split at hp
  · obtain ⟨u, -, rfl⟩ := List.mem_map.1 hp
    rfl
  · obtain rfl : p = .face i := by simpa using hp
    rfl

theorem length_kisFaces (sides : Option Nat) (m : Mesh) :
    (m.kisFaces sides).length =
      (m.faces.map fun f => if selects sides f then f.length else 1).sum :=
  length_flatMap_zipIdx (fun f i => by dsimp only; split <;> simp) m.faces

theorem length_flags_kis (sides : Option Nat) (m : Mesh) :
    (m.kisDesign sides).flags.length =
      (m.faces.map fun f => if selects sides f then 3 * f.length else f.length).sum := by
  refine length_flatMap_zipIdx (fun f i => ?_) m.faces
  have hedges : f.edges.length = f.length := length_cycleEdges f
  dsimp only [kisFaceFlags]
  rw [List.length_flatMap]
  cases selects sides f <;> simp [kisFlags, hedges, Nat.mul_comm]

/-- Each pyramid adds its apex and one face less than its base has sides. -/
theorem kis_balance (sides : Option Nat) (faces : List Face) :
    2 * ((faces.filter (selects sides)).length +
        (faces.map fun f => if selects sides f then f.length else 1).sum) +
      (faces.map List.length).sum =
    (faces.map fun f => if selects sides f then 3 * f.length else f.length).sum +
      2 * faces.length := by
  induction faces with
  | nil => rfl
  | cons f faces ih =>
    simp only [List.filter_cons, List.map_cons, List.sum_cons, List.length_cons]
    split
    · rw [List.length_cons]
      omega
    · omega

/-! ## The new surface -/

section Surface

variable (h : m.Surface)
include h

omit h in
theorem mem_labels_kis :
    s ∈ (m.kisDesign sides).labels ↔
      (∃ v, v < m.vertexCount ∧ s = .vertex v) ∨ ∃ i, m.raised sides i = true ∧ s = .center i := by
  rw [Blueprint.mem_labels, kisDesign, List.map_append, keys_vertexSites, List.mem_append]
  refine or_congr ?_ mem_keys_raisedSites
  simp [eq_comm]

omit h in
/-- Every site is declared once. -/
theorem nodup_keys_kis (sides : Option Nat) (m : Mesh) :
    ((m.kisDesign sides).vertices.map Prod.fst).Nodup := by
  rw [kisDesign, List.map_append, keys_vertexSites]
  refine List.Nodup.append ?_ (nodup_keys_raisedSites sides m) ?_
  · exact List.nodup_range.map fun _ _ heq => Site.vertex.inj heq
  · rw [List.disjoint_left]
    intro s hs hs'
    obtain ⟨i, -, rfl⟩ := mem_keys_raisedSites.1 hs'
    simp at hs

omit h in
theorem length_labels_kis :
    (m.kisDesign sides).labels.length =
      m.vertexCount + (m.faces.filter (selects sides)).length := by
  rw [Blueprint.length_labels_eq (nodup_keys_kis sides m) fun _ => Blueprint.mem_labels,
    List.length_map, kisDesign, List.length_append, ← length_raisedSites]
  simp [vertexSites, vertexCount, raisedSites]

theorem nodup_kisFlags : ((m.kisDesign sides).flags.map Flag.edge).Nodup := by
  obtain ⟨-, hnet⟩ := surface_iff.1 h
  have hedges : (edgesWithFace m.faces).Nodup :=
    List.Nodup.of_map Prod.fst (map_fst_edgesWithFace m ▸ h.edgesOnce)
  rw [flags_kis, List.map_flatMap, List.nodup_flatMap]
  constructor
  · rintro ⟨⟨u, v⟩, i⟩ hr
    have huv := hnet.ne (mem_edgesWithFace.1 hr)
    unfold kisFlags
    split <;> simp [Flag.edge, huv]
  · refine hedges.imp_of_mem ?_
    rintro ⟨⟨u, v⟩, i⟩ ⟨⟨x, y⟩, j⟩ hr hr' hne e he he'
    rw [mem_edgesWithFace] at hr hr'
    obtain ⟨⟨p, s, t⟩, hflag, rfl⟩ := List.mem_map.1 he
    obtain ⟨⟨q, _, _⟩, hflag', heq⟩ := List.mem_map.1 he'
    obtain ⟨rfl, rfl⟩ := Prod.mk.inj heq
    rw [mem_kisFlags, mem_cycleEdges_kisRing] at hflag hflag'
    clear he he' heq
    grind

omit h in
theorem nodup_kisFaces (h : m.Proper) : (m.kisFaces sides).Nodup := by
  rw [kisFaces, List.nodup_flatMap]
  constructor
  · rintro ⟨f, i⟩ hf
    have hface := h.simple f (List.mem_of_getElem? (List.mem_zipIdx_iff_getElem?.1 hf))
    dsimp only
    split
    · exact hface.nodup.map fun _ _ heq => (Patch.corner.inj heq).2
    · exact List.nodup_singleton _
  · have hplaces : (m.faces.zipIdx.map Prod.snd).Nodup := by
      rw [List.zipIdx_map_snd]
      exact List.nodup_range'
    rw [List.nodup_iff_pairwise_ne, List.pairwise_map] at hplaces
    exact hplaces.imp fun hne p hp hp' =>
      hne ((place_of_mem_kisFaces hp).symm.trans (place_of_mem_kisFaces hp'))

/-- The patches that run along anything are those that cover the faces. -/
theorem exists_runs_kis_iff :
    (∃ s t, (m.kisDesign sides).net.Runs p s t) ↔ p ∈ m.kisFaces sides := by
  rw [kisFaces, List.mem_flatMap]
  constructor
  · rintro ⟨s, t, hr⟩
    obtain ⟨i, u, v, ⟨f, hf, huv⟩, hp⟩ := runs_kis.1 hr
    refine ⟨(f, i), List.mem_zipIdx_iff_getElem?.2 hf, ?_⟩
    rw [raised_eq hf] at hp
    rcases hp with ⟨hselects, rfl, -⟩ | ⟨hselects, rfl, -⟩
    · simp [hselects, mem_left_of_mem_cycleEdges huv]
    · simp [hselects]
  · rintro ⟨⟨f, i⟩, hf, hp⟩
    rw [List.mem_zipIdx_iff_getElem?] at hf
    dsimp only at hf hp
    have hraised : m.raised sides i = selects sides f := raised_eq hf
    split at hp
    · next hselects =>
      obtain ⟨u, hu, rfl⟩ := List.mem_map.1 hp
      obtain ⟨v, huv⟩ := exists_mem_cycleEdges_left hu
      exact ⟨_, _, runs_triangle h ⟨f, hf, huv⟩ (hraised.trans hselects)
        (mem_cycleEdges_kisRing.2 (.inr (.inl ⟨rfl, rfl⟩)))⟩
    · next hselects =>
      obtain rfl : p = .face i := by simpa using hp
      obtain ⟨u, v, hr⟩ := exists_runs h (List.getElem?_eq_some_iff.1 hf).1
      exact ⟨_, _, (runs_kis_face (by simp [hraised, hselects])).2 ⟨u, v, hr, rfl, rfl⟩⟩

theorem length_faceLabels_kis :
    (m.kisDesign sides).faceLabels.length = (m.kisFaces sides).length :=
  Blueprint.length_faceLabels_eq (nodup_kisFaces h.toProper) fun _ => exists_runs_kis_iff h

/-- What kis lays on the faces goes round sites of the new surface. -/
theorem mem_labels_of_runs_kis (hruns : (m.kisDesign sides).net.Runs p s t) :
    s ∈ (m.kisDesign sides).labels := by
  obtain ⟨-, hnet⟩ := surface_iff.1 h
  refine mem_labels_kis.2 ?_
  obtain ⟨i, u, v, hr, ⟨hraised, -, he⟩ | ⟨-, -, rfl, -⟩⟩ := runs_kis.1 hruns
  · have hs := mem_left_of_mem_cycleEdges he
    simp only [kisRing, List.mem_cons, List.not_mem_nil, or_false] at hs
    rcases hs with rfl | rfl | rfl
    · exact .inl ⟨u, hnet.isVertex i u v hr, rfl⟩
    · exact .inl ⟨v, hnet.isVertex_right hr, rfl⟩
    · exact .inr ⟨i, hraised, rfl⟩
  · exact .inl ⟨u, hnet.isVertex i u v hr, rfl⟩

/-- An old edge has a patch along it, whether its face is raised or not. -/
theorem exists_runs_kis (hr : m.net.Runs i u v) :
    ∃ p, (m.kisDesign sides).net.Runs p (.vertex u) (.vertex v) := by
  cases hraised : m.raised sides i
  · exact ⟨_, (runs_kis_face hraised).2 ⟨u, v, hr, rfl, rfl⟩⟩
  · exact ⟨_, runs_triangle h hr hraised (by simp)⟩

theorem paired_kis (hruns : (m.kisDesign sides).net.Runs p s t) :
    ∃ q, (m.kisDesign sides).net.Runs q t s := by
  obtain ⟨-, hnet⟩ := surface_iff.1 h
  obtain ⟨i, u, v, hr, ⟨hraised, -, he⟩ | ⟨-, -, rfl, rfl⟩⟩ := runs_kis.1 hruns
  · obtain ⟨w, hc⟩ := hnet.exists_leaves hr
    obtain ⟨a, ha⟩ := hnet.exists_enters hr
    obtain ⟨j, hj⟩ := hnet.paired i u v hr
    rw [mem_cycleEdges_kisRing] at he
    rcases he with ⟨rfl, rfl⟩ | ⟨rfl, rfl⟩ | ⟨rfl, rfl⟩
    · exact ⟨_, runs_triangle h ha.enters hraised (by simp)⟩
    · exact exists_runs_kis h hj
    · exact ⟨_, runs_triangle h hc.leaves hraised (by simp)⟩
  · obtain ⟨j, hj⟩ := hnet.paired i u v hr
    exact exists_runs_kis h hj

theorem surface_kis : (m.kisDesign sides).net.Surface := by
  refine ⟨fun p s t hruns => mem_labels_of_runs_kis h hruns, fun p s t hruns => ?_,
    Blueprint.once_of_nodup (nodup_kisFlags h), fun p s t hruns => paired_kis h hruns,
    fun s hs => ?_⟩
  · obtain ⟨i, u, v, hr, ⟨hraised, rfl, -⟩ | ⟨hraised, rfl, -⟩⟩ := runs_kis.1 hruns
    · exact ⟨_, ring_kis_corner h.toProper hr hraised⟩
    · obtain ⟨f, hf, -⟩ := hr
      exact ⟨_, ring_kis_face h.toProper hf hraised⟩
  · rcases mem_labels_kis.1 hs with ⟨v, hv, rfl⟩ | ⟨i, hraised, rfl⟩
    · exact star_kis_vertex h hv
    · obtain ⟨f, hf, -⟩ := raised_iff.1 hraised
      exact ⟨_, star_kis_center h hf hraised⟩

end Surface

/-- A patch at an old vertex belongs to a face there. -/
theorem touches_place (h : m.Surface) (hp : (m.kisDesign sides).net.Touches p (.vertex v)) :
    m.net.Touches p.place v := by
  obtain ⟨-, hnet⟩ := surface_iff.1 h
  obtain ⟨t, ht⟩ := hp
  obtain ⟨i, x, y, hr, ⟨-, rfl, he⟩ | ⟨-, rfl, heq, -⟩⟩ := runs_kis.1 ht
  · rw [mem_cycleEdges_kisRing] at he
    simp only [reduceCtorEq, false_and, Site.vertex.injEq, false_or] at he
    rcases he with ⟨rfl, -⟩ | ⟨rfl, -⟩
    · exact ⟨y, hr⟩
    · exact hnet.touches_right hr
  · obtain rfl := Site.vertex.inj heq
    exact ⟨y, hr⟩

theorem polyhedral_kis (h : m.Polyhedral) : (m.kisDesign sides).net.Polyhedral where
  toSurface := surface_kis h.toSurface
  meet p q s t hpq hst hps hqs hpt hqt := by
    obtain ⟨-, hnet⟩ := polyhedral_iff.1 h
    obtain ⟨_, hruns⟩ := id hps
    obtain ⟨i, u, v, hr, ⟨hraised, rfl, -⟩ | ⟨hraised, rfl, -⟩⟩ := runs_kis.1 hruns
    · have hring := ring_kis_corner h.toProper hr hraised
      rw [hring.touches_iff] at hps hpt
      rw [hring.runs_iff, hring.runs_iff]
      exact joined_of_mem_three hst hps hpt
    · -- an old face and another patch have only old vertices in common
      obtain ⟨_, hs⟩ := hps
      obtain ⟨_, ht⟩ := hpt
      obtain ⟨a, c, ha, rfl, -⟩ := (runs_kis_face hraised).1 hs
      obtain ⟨b, d, hb, rfl, -⟩ := (runs_kis_face hraised).1 ht
      have hplace : i ≠ q.place := by
        rintro rfl
        obtain ⟨_, hq⟩ := hqs
        obtain ⟨j, x, y, -, ⟨hj, rfl, -⟩ | ⟨-, rfl, -⟩⟩ := runs_kis.1 hq
        · exact Bool.false_ne_true (hraised.symm.trans hj)
        · exact hpq rfl
      have hab : a ≠ b := fun heq => hst (congrArg _ heq)
      rw [runs_kis_face hraised, runs_kis_face hraised]
      exact (hnet.meet i q.place a b hplace hab ⟨c, ha⟩ (touches_place h.toSurface hqs) ⟨d, hb⟩
        (touches_place h.toSurface hqt)).imp (fun he => ⟨a, b, he, rfl, rfl⟩)
          fun he => ⟨b, a, he, rfl, rfl⟩

/-- Kis makes a spherical polyhedron of one. -/
theorem Spherical.kisDesign (h : m.Spherical) (sides : Option Nat) :
    (m.kisDesign sides).Spherical where
  toPolyhedral := polyhedral_kis h.toPolyhedral
  flags_nodup := nodup_kisFlags h.toSurface
  euler := by
    have heuler := h.euler
    have hbalance := kis_balance sides m.faces
    rw [length_directedEdges, faceCount] at heuler
    rw [length_labels_kis, length_faceLabels_kis h.toSurface, length_kisFaces, length_flags_kis]
    omega

end Mesh

end Polyhedra
