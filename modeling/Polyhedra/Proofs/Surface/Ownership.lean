import Polyhedra.Proofs.Surface.Dual
import Polyhedra.Proofs.Surface.Platonic
import Polyhedra.Proofs.Surface.Walk

/-!
# Whose face is it

`Mesh.dual` can be asked of any mesh whose faces name existing vertices: an open
one, one with a face twice, one on which faces meet in all sorts of ways.  What
it assembles for a vertex then winds round that vertex (`Mesh.WindsRound`), but
the first three faces of it may have several vertices in common, and the owner
that is found is only the first of these.

Even so no face of a dual ends up at a wrong vertex.  Read the faces of the mesh
one after another and note where each vertex first occurs: the owner that is
found never occurs later than the right one, since the face that comes first in
the winding is the first one at the vertex.  If every vertex gets a face then
owners are a permutation of the vertices, and a permutation that moves no vertex
back moves none at all.

## Main results

* `Mesh.exists_winding` — the assembled faces wind round their vertices.
* `Mesh.exists_ownerOf` — an owner is found, and does not occur later.
* `Mesh.exists_face_of_dual` — a dual has a winding face at each vertex.
* `Mesh.dual_eq_error` — how taking the dual can fail.
* `Mesh.InRange.dual_attached` — all of this for meshes that name existing vertices.
-/

namespace Polyhedra

/-! ## Ranks and permutations -/

/-- A permutation under which no entry moves up in rank, unless it stays, moves nothing. -/
theorem eq_of_perm_of_rank {α : Type} {us vs : List α} (rank : α → Nat) (hperm : us.Perm vs)
    (hnodup : vs.Nodup) (hrank : List.Forall₂ (fun v u => u = v ∨ rank u < rank v) vs us) :
    us = vs := by
  have hstep : ∀ k (hv : k < vs.length) (hu : k < us.length),
      us[k] = vs[k] ∨ rank us[k] < rank vs[k] := fun k hv hu => hrank.get hv hu
  -- by induction on the rank: what ranks lower stays in its place, so no place is left for it
  have hfixed : ∀ n k (hv : k < vs.length) (hu : k < us.length),
      rank vs[k] = n → us[k] = vs[k] := by
    intro n
    induction n using Nat.strongRecOn with
    | ind n ih =>
      intro k hv hu hn
      rcases hstep k hv hu with heq | hlt
      · exact heq
      · have hmem : us[k] ∈ vs := hperm.mem_iff.1 (List.getElem_mem hu)
        obtain ⟨j, hj, hjk⟩ := List.mem_iff_getElem.1 hmem
        have hj' : j < us.length := hperm.length_eq ▸ hj
        have hsame : us[j] = us[k] := by
          rw [← hjk]
          refine ih (rank vs[j]) ?_ j hj hj' rfl
          rw [hjk]
          omega
        have hplace : j = k := ((hperm.nodup_iff.2 hnodup).getElem_inj_iff).1 hsame
        subst hplace
        exact hjk.symm
  exact List.ext_getElem hperm.length_eq fun k hu hv => hfixed _ k hv hu rfl

/-- Of two lists of the same length with one between them either is a permutation of the other. -/
theorem perm_of_subset_of_subset {α : Type} {l between l' : List α} (hl : l.Nodup)
    (hbetween : between.Nodup) (hsub : l ⊆ between) (hsup : between ⊆ l')
    (hlength : l.length = l'.length) : l'.Perm l := by
  have hsubperm := hl.subperm hsub
  have hsupperm := hbetween.subperm hsup
  have hle := hsubperm.length_le
  have hle' := hsupperm.length_le
  have hperm : l.Perm between := hsubperm.perm_of_length_le (by omega)
  have hperm' : between.Perm l' := hsupperm.perm_of_length_le (by omega)
  exact (hperm.trans hperm').symm

/-! ## First entries -/

/-- If entries are sorted by value then the one that counts for a label has the least value. -/
theorem le_of_mem_firstByLabel {K : Type} [BEq K] [Hashable K] [LawfulBEq K]
    {seen : Std.HashSet K} {l : List (K × Nat)} (hsorted : l.Pairwise fun x y => x.2 ≤ y.2)
    {k : K} {a b : Nat} (ha : (k, a) ∈ firstByLabel seen l) (hb : (k, b) ∈ l) : a ≤ b := by
  induction l generalizing seen with
  | nil => simp at hb
  | cons entry l ih =>
    obtain ⟨k', a'⟩ := entry
    obtain ⟨hhead, htail⟩ := List.pairwise_cons.1 hsorted
    have hunseen : ∀ {s : Std.HashSet K}, (k, a) ∈ firstByLabel s l → k ∉ s := fun hmem =>
      (mem_keys_firstByLabel.1 (List.mem_map_of_mem hmem)).2
    rw [firstByLabel_cons] at ha
    split at ha
    · next hseen =>
      have hne : k ≠ k' := by
        intro heq
        exact hunseen ha (by simpa [heq] using hseen)
      have hb' : (k, b) ∈ l := (List.mem_cons.1 hb).resolve_left fun heq => hne (Prod.mk.inj heq).1
      exact ih htail ha hb'
    · rcases List.mem_cons.1 ha with heq | ha
      · obtain ⟨rfl, rfl⟩ := Prod.mk.inj heq
        rcases List.mem_cons.1 hb with heq | hb
        · exact (Prod.mk.inj heq).2.ge
        · exact hhead _ hb
      · have hne : k ≠ k' := by
          intro heq
          exact hunseen ha (by simp [heq])
        have hb' : (k, b) ∈ l :=
          (List.mem_cons.1 hb).resolve_left fun heq => hne (Prod.mk.inj heq).1
        exact ih htail ha hb'

namespace Mesh

variable {m : Mesh} {f g i k u v w : Nat}

/-- Edges are listed face by face. -/
theorem sorted_edgesWithFace (m : Mesh) :
    (edgesWithFace m.faces).Pairwise fun x y => x.2 ≤ y.2 := by
  rw [edgesWithFace, List.pairwise_flatMap]
  constructor
  · rintro ⟨face, i⟩ _
    exact List.pairwise_map.2 (List.pairwise_of_forall fun _ _ => le_rfl)
  · have hplaces : (m.faces.zipIdx.map Prod.snd).Pairwise (· < ·) := by
      rw [List.zipIdx_map_snd]
      exact List.pairwise_lt_range'
    refine (List.pairwise_map.1 hplaces).imp fun hlt => ?_
    intro x hx y hy
    obtain ⟨_, _, rfl⟩ := List.mem_map.1 hx
    obtain ⟨_, _, rfl⟩ := List.mem_map.1 hy
    exact hlt.le

/-- The face along an edge does run along it. -/
theorem runs_of_faceAlong (h : (faceAlong (edgesWithFace m.faces))[(u, v)]? = some i) :
    m.net.Runs i u v :=
  mem_edgesWithFace.1 (mem_of_getElem?_lastByLabel h)

/-! ## Windings -/

/--
The faces of the cycle all have the vertex `v`, each is followed by one that lies
across an edge at `v`, and the first one is the first of all faces at `v`.
-/
structure WindsRound (m : Mesh) (v : Nat) (around : Face) : Prop where
  nodup : around.Nodup
  touches : ∀ i ∈ around, m.Touches i v
  across : ∀ f g, (f, g) ∈ cycleEdges around → ∃ w, m.RunsAlong f w v ∧ m.RunsAlong g v w
  first : ∃ i, around.head? = some i ∧ ∀ j, m.Touches j v → i ≤ j

/-- The flags of a dual cross edges, if all of them can be made. -/
theorem dualBlueprint_spec {b : Blueprint Nat Nat} (h : dualBlueprint m.faces = .ok b) :
    b = m.dualDesign ∧ ∀ v g f, m.dualDesign.net.Runs v g f → m.net.dual.Runs v g f := by
  obtain ⟨flags, hflags, rfl⟩ := Except.map_eq_ok.1 h
  have hall : List.Forall₂ (fun e flag => flag = m.dualFlag e ∧ m.net.Runs flag.source e.1.2 e.1.1)
      (edgesWithFace m.faces) flags := by
    refine (mapM_eq_ok_iff.1 hflags).imp ?_
    rintro ⟨⟨v, w⟩, f⟩ flag hflag
    cases hacross : (faceAlong (edgesWithFace m.faces))[(w, v)]? with
    | none => simp [hacross] at hflag
    | some g =>
      simp only [hacross] at hflag
      obtain rfl := Except.ok.inj hflag
      refine ⟨?_, runs_of_faceAlong hacross⟩
      rw [dualFlag, Prod.swap_prod_mk, hacross]
      rfl
  constructor
  · have heq : List.Forall₂ (· = ·) ((edgesWithFace m.faces).map m.dualFlag) flags :=
      List.forall₂_map_left_iff.2 (hall.imp fun _ _ hflag => hflag.1.symm)
    rw [List.forall₂_eq_eq_eq] at heq
    rw [← heq]
    rfl
  · intro v g f hr
    obtain ⟨⟨⟨v', w⟩, f'⟩, he, heq⟩ := List.mem_map.1 hr
    obtain ⟨flag, -, hflag, hback⟩ := exists_zip_of_forall₂ hall he
    rw [hflag, heq] at hback
    obtain ⟨rfl, -, rfl⟩ := Flag.mk.inj heq
    exact ⟨w, mem_edgesWithFace.1 he, hback⟩

/-- A dual face begins with the first face at its vertex. -/
theorem first_of_mem_entries (h : (v, i) ∈ m.dualDesign.entries) :
    m.Touches i v ∧ ∀ j, m.Touches j v → i ≤ j := by
  have hentries : m.dualDesign.entries =
      firstByLabel ∅ ((edgesWithFace m.faces).map fun e => (e.1.1, e.2)) := by
    rw [Blueprint.entries, dualDesign, List.map_map]
    rfl
  have hmem : ∀ j, (v, j) ∈ (edgesWithFace m.faces).map (fun e => (e.1.1, e.2)) ↔
      m.Touches j v := by
    intro j
    rw [← touches_net_iff, List.mem_map]
    constructor
    · rintro ⟨⟨⟨v', w⟩, j'⟩, he, heq⟩
      obtain ⟨rfl, rfl⟩ := Prod.mk.inj heq
      exact ⟨w, mem_edgesWithFace.1 he⟩
    · rintro ⟨w, hr⟩
      exact ⟨((v, w), j), mem_edgesWithFace.2 hr, rfl⟩
  rw [hentries] at h
  have hsorted : ((edgesWithFace m.faces).map fun e => (e.1.1, e.2)).Pairwise
      fun x y => x.2 ≤ y.2 := List.pairwise_map.2 m.sorted_edgesWithFace
  exact ⟨(hmem i).1 (firstByLabel_subset _ _ h), fun j hj =>
    le_of_mem_firstByLabel hsorted h ((hmem j).2 hj)⟩

/-- A loop of dual flags winds round its vertex. -/
theorem windsRound_of_loop {loop : List Nat}
    (hcross : ∀ v g f, m.dualDesign.net.Runs v g f → m.net.dual.Runs v g f)
    (hentry : (v, i) ∈ m.dualDesign.entries) (hloop : m.dualDesign.net.Loop v i loop) :
    m.WindsRound v loop where
  nodup := hloop.nodup
  touches f hf := by
    obtain ⟨g, hgf⟩ := exists_mem_cycleEdges_right hf
    obtain ⟨w, hr, -⟩ := hcross v g f (hloop.runs g f hgf)
    exact touches_net_iff.1 ⟨w, hr⟩
  across f g hfg := by
    obtain ⟨w, hg, hf⟩ := hcross v f g (hloop.runs f g hfg)
    exact ⟨w, hf, hg⟩
  first := ⟨i, hloop.head, (first_of_mem_entries hentry).2⟩

theorem Touches.lt_faceCount (h : m.Touches i v) : i < m.faceCount := by
  obtain ⟨face, hface, -⟩ := h
  exact (List.getElem?_eq_some_iff.1 hface).1

/-- Every assembled dual face winds round its vertex. -/
theorem exists_winding {fs : List Face} {b : Blueprint Nat Nat}
    (hb : dualBlueprint m.faces = .ok b) (hfs : b.faces = .ok fs) :
    List.Forall₂ (fun v around => m.WindsRound v around) m.dualDesign.faceLabels fs := by
  obtain ⟨rfl, hcross⟩ := dualBlueprint_spec hb
  rw [Blueprint.faceLabels, List.forall₂_map_left_iff]
  have hentries : ∀ entry ∈ m.dualDesign.entries, entry ∈ m.dualDesign.entries := fun _ => id
  have hloops := Blueprint.exists_loops (Blueprint.faces_eq_ok_iff_assembleFaces.1 hfs).2
  refine ((List.forall₂_and_left _ _).2 ⟨hentries, hloops⟩).imp ?_
  rintro ⟨v, i⟩ around ⟨hentry, loop, hloop, rfl⟩
  have hwinds := windsRound_of_loop hcross hentry hloop
  have hsame : loop.map m.dualDesign.indexOf = loop := by
    refine (List.map_congr_left fun f hf => ?_).trans (List.map_id loop)
    exact indexOf_dualDesign (hwinds.touches f hf).lt_faceCount
  rw [hsame]
  exact hwinds

/-! ## Owners -/

/-- Where a vertex first occurs when the faces are read one after another. -/
def firstPlace (m : Mesh) (v : Nat) : Nat := m.faces.flatten.idxOf v

/-- An entry that stands in front of all occurrences of another one occurs first. -/
theorem idxOf_lt_of_append {α : Type} [BEq α] [LawfulBEq α] {l s t : List α} {a b : α}
    (hl : l = s ++ a :: t) (hb : b ∉ s) (hne : a ≠ b) : l.idxOf a < l.idxOf b := by
  have hbefore : l.idxOf a ≤ s.length := by
    by_cases hmem : a ∈ s
    · rw [hl, List.idxOf_append_of_mem hmem]
      exact (List.idxOf_lt_length_of_mem hmem).le
    · rw [hl, List.idxOf_append_of_notMem hmem, List.idxOf_cons_self]
      omega
  have hafter : l.idxOf b = s.length + (t.idxOf b + 1) := by
    rw [hl, List.idxOf_append_of_notMem hb, List.idxOf_cons_ne _ hne]
  omega

/-- What is found in the first face at a vertex does not occur later than the vertex. -/
theorem firstPlace_lt_of_find? {face : Face} {p : Nat → Bool} (hface : m.faces[i]? = some face)
    (hfirst : ∀ j, m.Touches j v → i ≤ j) (hv : p v = true) (hu : face.find? p = some u)
    (hne : u ≠ v) : m.firstPlace u < m.firstPlace v := by
  obtain ⟨-, s, t, rfl, hs⟩ := List.find?_eq_some_iff_append.1 hu
  obtain ⟨hi, hget⟩ := List.getElem?_eq_some_iff.1 hface
  have hsplit : m.faces.flatten = ((m.faces.take i).flatten ++ s) ++
      u :: (t ++ (m.faces.drop (i + 1)).flatten) := by
    conv_lhs => rw [← List.take_append_drop i m.faces, List.drop_eq_getElem_cons hi, hget]
    simp
  refine idxOf_lt_of_append hsplit ?_ hne
  rw [List.mem_append, not_or]
  constructor
  · rw [List.mem_flatten]
    rintro ⟨earlier, hmem, hin⟩
    obtain ⟨j, hj, heq⟩ := List.mem_take_iff_getElem.1 hmem
    have := hfirst j ⟨earlier, List.getElem?_eq_some_iff.2 ⟨by omega, heq⟩, hin⟩
    omega
  · intro hin
    have := hs v hin
    simp [hv] at this

/-- An owner is found for a winding of three or more faces, and it does not occur later. -/
theorem exists_ownerOf (hrange : m.InRange) {around : Face} (h : m.WindsRound v around)
    (hthree : 3 ≤ around.length) (k : Nat) :
    ∃ u, ownerOf m.faces.toArray m.vertexCount k around = .ok u ∧
      (u = v ∨ m.firstPlace u < m.firstPlace v) := by
  obtain ⟨f, g, e, rest, rfl⟩ : ∃ f g e rest, around = f :: g :: e :: rest := by
    match around, hthree with
    | f :: g :: e :: rest, _ => exact ⟨f, g, e, rest, rfl⟩
  obtain ⟨face, hface, hv⟩ := h.touches f (by simp)
  have htable : m.faces.toArray.getD f [] = face := by
    rw [Array.getD_eq_getD_getElem?, List.getElem?_toArray, hface]
    rfl
  -- `v` itself lies in all three of the faces, so something is found
  have hcommon : ((m.faces.toArray.getD g []).contains v &&
      (m.faces.toArray.getD e []).contains v) = true := by
    rw [Bool.and_eq_true, List.contains_iff_mem, List.contains_iff_mem]
    exact ⟨mem_getD_faces.2 (h.touches g (by simp)), mem_getD_faces.2 (h.touches e (by simp))⟩
  have hsome : (Face.common? face (m.faces.toArray.getD g [])
      (m.faces.toArray.getD e [])).isSome = true := List.find?_isSome.2 ⟨v, hv, hcommon⟩
  obtain ⟨u, hu⟩ := Option.isSome_iff_exists.1 hsome
  have hlt : u < m.vertexCount :=
    hrange face (List.mem_of_getElem? hface) u (List.mem_of_find?_eq_some hu)
  refine ⟨u, ?_, ?_⟩
  · have hfound : Face.common? (m.faces.toArray.getD f []) (m.faces.toArray.getD g [])
        (m.faces.toArray.getD e []) = some u := by
      rw [Face.common?, htable]
      exact hu
    simp only [ownerOf, hfound]
    exact if_pos hlt
  · by_cases hne : u = v
    · exact .inl hne
    · obtain ⟨i, hhead, hfirst⟩ := h.first
      obtain rfl : f = i := by simpa using hhead
      exact .inr (firstPlace_lt_of_find? hface hfirst hcommon hu hne)

/-- An owner is looked for among three faces at least. -/
theorem three_le_of_ownerOf {table : Array Face} {vertexCount k : Nat} {around : Face}
    (h : ownerOf table vertexCount k around = .ok u) : 3 ≤ around.length := by
  match around, h with
  | [], h => simp [ownerOf] at h
  | [_], h => simp [ownerOf] at h
  | [_, _], h => simp [ownerOf] at h
  | _ :: _ :: _ :: _, _ => simp

/-! ## Every face at its vertex -/

/-- An assembled face of the vertex `v`, with an owner that does not occur later than `v`. -/
structure WellOwned (m : Mesh) (v : Nat) (entry : Nat × Face) : Prop where
  winds : m.WindsRound v entry.2
  three_le : 3 ≤ entry.2.length
  place : entry.1 = v ∨ m.firstPlace entry.1 < m.firstPlace v

section Arrangement

variable (hrange : m.InRange) {fs : List Face} {owned : List (Nat × Face)}
include hrange

/-- The owners that are found for assembled faces do not occur later than the right ones. -/
theorem forall₂_ownedFaces {vs : List Nat}
    (hwinds : List.Forall₂ (fun v around => m.WindsRound v around) vs fs)
    (howned : ownedFaces m.faces m.vertexCount fs = .ok owned) :
    List.Forall₂ m.WellOwned vs owned := by
  have hentries := mapM_eq_ok_iff.1 howned
  have hlength := hentries.length_eq
  rw [List.length_zipIdx] at hlength
  refine List.forall₂_iff_get.2 ⟨hwinds.length_eq.trans hlength, fun k hk hk' => ?_⟩
  have hk'' : k < fs.length := by omega
  have hentry := hentries.get (by simpa using hk'') hk'
  have hwind := hwinds.get hk hk''
  simp only [List.get_eq_getElem, List.getElem_zipIdx] at hentry hwind ⊢
  obtain ⟨u, hu, heq⟩ := Except.map_eq_ok.1 hentry
  have hthree := three_le_of_ownerOf hu
  obtain ⟨u', hu', hplace⟩ := exists_ownerOf hrange hwind hthree (0 + k)
  have hsame : u = u' := Except.ok.inj (hu.symm.trans hu')
  rw [← heq]
  exact ⟨hwind, hthree, hsame ▸ hplace⟩

/-- If every vertex gets a face then the owners are the right ones. -/
theorem owners_eq {around : List Face}
    (hall : List.Forall₂ m.WellOwned m.dualDesign.faceLabels owned)
    (harrange : arrangeByOwner m.vertexCount owned = .ok around) :
    owned.map Prod.fst = m.dualDesign.faceLabels := by
  have hnodup := Blueprint.nodup_faceLabels m.dualDesign
  have hlabels : m.dualDesign.faceLabels ⊆ List.range m.vertexCount := by
    intro v hv
    obtain ⟨⟨v', i⟩, hentry, heq⟩ := List.mem_map.1 hv
    obtain ⟨face, hface, hmem⟩ := (first_of_mem_entries hentry).1
    rw [← heq]
    exact List.mem_range.2 (hrange face (List.mem_of_getElem? hface) v' hmem)
  have howners : List.range m.vertexCount ⊆ owned.map Prod.fst := by
    intro v hv
    obtain ⟨face, -, hface⟩ := exists_zip_of_forall₂ (mapM_eq_ok_iff.1 harrange) hv
    cases hfound : (lastByLabel owned)[v]? with
    | none => simp [hfound] at hface
    | some _ => exact List.mem_map_of_mem (mem_of_getElem?_lastByLabel hfound)
  -- there are as many owners as labels, so both are the numbers of all vertices
  have hlength : m.dualDesign.faceLabels.length = (owned.map Prod.fst).length := by
    rw [List.length_map]
    exact hall.length_eq
  have hperm := perm_of_subset_of_subset hnodup List.nodup_range hlabels howners hlength
  refine eq_of_perm_of_rank m.firstPlace hperm hnodup ?_
  exact List.forall₂_map_right_iff.2 (hall.imp fun _ _ ho => ho.place)

/-- A dual has a face at each vertex, which winds round it. -/
theorem exists_face_of_dual {d : Mesh} (h : m.dual = .ok d) :
    List.Forall₂ (fun v around => m.WindsRound v around ∧ 3 ≤ around.length)
      (List.range m.vertexCount) d.faces := by
  obtain ⟨faces, hfaces, rfl⟩ := Except.map_eq_ok.1 h
  obtain ⟨fs, hassembled, horder⟩ := Except.bind_eq_ok.1 hfaces
  obtain ⟨b, hb, hfs⟩ := Except.bind_eq_ok.1 hassembled
  obtain ⟨owned, howned, harrange⟩ := Except.bind_eq_ok.1 horder
  have hall := forall₂_ownedFaces hrange (exists_winding hb hfs) howned
  rw [← owners_eq hrange hall harrange, List.forall₂_map_left_iff] at hall
  refine (mapM_eq_ok_iff.1 harrange).imp fun v around hfound => ?_
  cases hentry : (lastByLabel owned)[v]? with
  | none => simp [hentry] at hfound
  | some face =>
    simp only [hentry, Except.ok.injEq] at hfound
    have howner := List.forall₂_same.1 hall _ (mem_of_getElem?_lastByLabel hentry)
    rw [← hfound]
    exact ⟨howner.winds, howner.three_le⟩

end Arrangement

/-! ## Failures -/

/-- An edge without an opposite one is the only thing that keeps a dual from being laid out. -/
theorem dualBlueprint_eq_error {err : MeshError} (h : dualBlueprint m.faces = .error err) :
    ∃ v w, err = .missingOppositeEdge v w := by
  obtain ⟨⟨⟨v, w⟩, i⟩, -, hflag⟩ := exists_of_mapM_eq_error (Except.map_eq_error.1 h)
  cases hacross : (faceAlong (edgesWithFace m.faces))[(w, v)]? with
  | none =>
    simp only [hacross, Except.error.injEq] at hflag
    exact ⟨v, w, hflag.symm⟩
  | some _ => simp [hacross] at hflag

/-- Faces that wind round vertices have owners, or are too short to have one. -/
theorem ownedFaces_eq_error (hrange : m.InRange) {vs : List Nat} {fs : List Face} {err : MeshError}
    (hwinds : List.Forall₂ (fun v around => m.WindsRound v around) vs fs)
    (h : ownedFaces m.faces m.vertexCount fs = .error err) :
    ∃ k n, err = .degenerateFace k n := by
  obtain ⟨⟨around, k⟩, hmem, howner⟩ := exists_of_mapM_eq_error h
  have howner := Except.map_eq_error.1 howner
  have haround := List.mem_of_getElem? (List.mem_zipIdx_iff_getElem?.1 hmem)
  obtain ⟨v, -, hwind⟩ := exists_zip_of_forall₂ hwinds.flip haround
  by_cases hthree : 3 ≤ around.length
  · obtain ⟨u, hu, -⟩ := exists_ownerOf hrange hwind hthree k
    rw [hu] at howner
    cases howner
  · refine ⟨k, around.length, ?_⟩
    match around, hthree, howner with
    | [], _, h => exact (Except.error.inj h).symm
    | [_], _, h => exact (Except.error.inj h).symm
    | [_, _], _, h => exact (Except.error.inj h).symm
    | _ :: _ :: _ :: _, hthree, _ => exact absurd (by simp) hthree

/-- A dual that is laid out fails by its size, or for want of a closed round of faces. -/
theorem dual_eq_error_of_blueprint (hrange : m.InRange) {b : Blueprint Nat Nat} {err : MeshError}
    (hb : dualBlueprint m.faces = .ok b) (h : m.dual = .error err) :
    ((∃ n, err = .tooManyVertices n maxVertices) ∨ ∃ n, err = .tooManyFaces n maxFaces) ∨
      (∃ k, err = .missingFlag k) ∨ (∃ k n, err = .openFace k n) ∨
        ∃ k n, err = .degenerateFace k n := by
  have h := Except.map_eq_error.1 h
  rw [dualFaces, hb] at h
  rcases Except.bind_eq_error.1 h with hfs | ⟨fs, hfs, horder⟩
  · obtain ⟨rfl, hcross⟩ := dualBlueprint_spec hb
    have hdeclared : ∀ v g f, m.dualDesign.net.Runs v g f → f ∈ m.dualDesign.labels := by
      intro v g f hr
      obtain ⟨w, hf, -⟩ := hcross v g f hr
      rw [labels_dualDesign, List.mem_range]
      exact lt_faceCount_of_runs hf
    rcases Blueprint.faces_eq_error_iff_assembleFaces.1 hfs with hsize | ⟨-, hfs⟩
    · exact .inl ((oversize?_eq_some hsize).imp (fun hv => ⟨_, hv.2⟩) fun hf => ⟨_, hf.2⟩)
    · exact .inr ((Blueprint.assembleFaces_eq_error hdeclared hfs).imp_right .inl)
  · refine .inr ?_
    rcases Except.bind_eq_error.1 horder with howned | ⟨owned, -, harrange⟩
    · exact .inr (.inr (ownedFaces_eq_error hrange (exists_winding hb hfs) howned))
    · obtain ⟨v, -, hmissing⟩ := exists_of_mapM_eq_error harrange
      cases hfound : (lastByLabel owned)[v]? with
      | none =>
        simp only [hfound, Except.error.injEq] at hmissing
        exact .inl ⟨v, hmissing.symm⟩
      | some _ => simp [hfound] at hmissing

/-- Taking the dual fails for want of an opposite edge or of a closed round, or by its size. -/
theorem dual_eq_error (hrange : m.InRange) {err : MeshError} (h : m.dual = .error err) :
    (∃ v w, err = .missingOppositeEdge v w) ∨
      ((∃ n, err = .tooManyVertices n maxVertices) ∨ ∃ n, err = .tooManyFaces n maxFaces) ∨
      (∃ k, err = .missingFlag k) ∨ (∃ k n, err = .openFace k n) ∨
        ∃ k n, err = .degenerateFace k n := by
  cases hb : dualBlueprint m.faces with
  | ok b => exact .inr (dual_eq_error_of_blueprint hrange hb h)
  | error err' =>
    have h := Except.map_eq_error.1 h
    rw [dualFaces, hb] at h
    obtain rfl := Except.error.inj h
    exact .inl (dualBlueprint_eq_error hb)

/-! ## The right face for every vertex -/

/--
If the faces of a mesh name existing vertices then taking the dual looks up no
face that is not there, finds an owner for whatever it has assembled, and yields
a dual only with the face at each place that winds round the vertex of that
number.
-/
theorem InRange.dual_attached (h : m.InRange) :
    ((∀ k, m.dual ≠ .error (.noCommonVertex k)) ∧ (∀ k, m.dual ≠ .error (.undeclaredVertex k)) ∧
      ∀ v, m.dual ≠ .error (.danglingVertex v)) ∧
    (∀ fs, (dualBlueprint m.faces).bind Blueprint.faces = .ok fs →
      ∀ around ∈ fs, ∀ i ∈ around, i < m.faceCount) ∧
    ∀ d, m.dual = .ok d → d.faceCount = m.vertexCount ∧
      ∀ v < m.vertexCount, ∃ around, d.faces[v]? = some around ∧ 3 ≤ around.length ∧
        m.WindsRound v around := by
  refine ⟨⟨fun k herr => ?_, fun k herr => ?_, fun v herr => ?_⟩, ?_, ?_⟩
  · simpa using dual_eq_error h herr
  · simpa using dual_eq_error h herr
  · simpa using dual_eq_error h herr
  · intro fs hassembly around haround i hi
    obtain ⟨b, hb, hfs⟩ := Except.bind_eq_ok.1 hassembly
    obtain ⟨v, -, hwind⟩ := exists_zip_of_forall₂ (exists_winding hb hfs).flip haround
    exact (hwind.touches i hi).lt_faceCount
  · intro d hd
    have hall := exists_face_of_dual h hd
    refine ⟨(dual_eq_ok hd).2.1, fun v hv => ?_⟩
    have hv' : v < d.faces.length := by
      rw [← hall.length_eq, List.length_range]
      exact hv
    have hface := hall.get (by simpa using hv) hv'
    rw [List.get_eq_getElem, List.getElem_range] at hface
    exact ⟨_, List.getElem?_eq_getElem hv', hface.2, hface.1⟩

/-- The cube has a dual, the faces of which wind round the eight vertices. -/
theorem InRange.dual_attached_cube :
    cube.InRange ∧ ∃ d, cube.dual = .ok d ∧ d.faceCount = 8 ∧
      ∀ v < 8, ∃ around, d.faces[v]? = some around ∧ 3 ≤ around.length ∧
        cube.WindsRound v around := by
  have hrange : cube.InRange := by decide
  obtain ⟨d, hd, -⟩ := spherical_cube.exists_dual withinLimits_cube
  obtain ⟨hcount, hfaces⟩ := (InRange.dual_attached hrange).2.2 d hd
  exact ⟨hrange, d, hd, hcount, hfaces⟩

end Mesh

end Polyhedra
