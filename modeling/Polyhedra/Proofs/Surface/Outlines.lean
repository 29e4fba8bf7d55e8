import Polyhedra.Proofs.Surface.Assembly

/-!
# Outlines

Some blueprints declare every vertex once and lay out their faces one after
another, each of them once around.  Assembly then gives what is to be expected:
vertices and faces in the order of their declaration, and each face from the
vertex on to which its first flag leads.

## Main results

* `firstByLabel_eq_self`, `forall₂_firstByLabel` — which entries count if no label
  comes twice, or if all entries of a label come in a row.
* `Blueprint.assembleFaces_eq_ok` — the faces of a blueprint that lays out one face after
  another.
-/

namespace Polyhedra

/-! ## Entries that count -/

section First

variable {K A : Type} [BEq K] [Hashable K] [LawfulBEq K] {seen : Std.HashSet K}

/-- A label that comes later is still new after the first one. -/
private theorem unseen_of_nodup {k : K} {ks : List K} (hnodup : (k :: ks).Nodup)
    (hseen : ∀ k' ∈ k :: ks, k' ∉ seen) : ∀ k' ∈ ks, k' ∉ seen.insert k := by
  intro k' hk'
  rw [Std.HashSet.mem_insert]
  rintro (heq | hmem)
  · rw [eq_of_beq heq] at hnodup
    exact (List.nodup_cons.1 hnodup).1 hk'
  · exact hseen k' (List.mem_cons_of_mem _ hk') hmem

/-- If no label occurs twice then every entry counts. -/
theorem firstByLabel_eq_self {l : List (K × A)} (hnodup : (l.map Prod.fst).Nodup)
    (hseen : ∀ k ∈ l.map Prod.fst, k ∉ seen) : firstByLabel seen l = l := by
  induction l generalizing seen with
  | nil => rfl
  | cons entry l ih =>
    obtain ⟨k, a⟩ := entry
    have hk : seen.contains k = false := by
      simpa using hseen k (by simp)
    rw [firstByLabel_cons, hk, if_neg Bool.false_ne_true,
      ih (List.nodup_cons.1 hnodup).2 (unseen_of_nodup hnodup hseen)]

omit [LawfulBEq K] in
/-- Further entries of a label that was seen before do not count. -/
theorem firstByLabel_append_of_mem {k : K} (hk : k ∈ seen) (as : List A) (l : List (K × A)) :
    firstByLabel seen (as.map (k, ·) ++ l) = firstByLabel seen l := by
  induction as with
  | nil => rfl
  | cons a as ih =>
    have hcontains : seen.contains k = true := hk
    rw [List.map_cons, List.cons_append, firstByLabel_cons, if_pos hcontains, ih]

/-- If the entries of each label come in a row, the first one of each row counts. -/
theorem forall₂_firstByLabel {rows : List (K × List A)} (hnodup : (rows.map Prod.fst).Nodup)
    (hseen : ∀ k ∈ rows.map Prod.fst, k ∉ seen) (hne : ∀ row ∈ rows, row.2 ≠ []) :
    List.Forall₂ (fun row entry => ∃ rest, row = (entry.1, entry.2 :: rest)) rows
      (firstByLabel seen (rows.flatMap fun row => row.2.map (row.1, ·))) := by
  induction rows generalizing seen with
  | nil => exact .nil
  | cons row rows ih =>
    obtain ⟨k, as⟩ := row
    obtain ⟨a, rest, rfl⟩ := List.exists_cons_of_ne_nil (hne (k, as) (by simp))
    have hk : seen.contains k = false := by
      simpa using hseen k (by simp)
    rw [List.flatMap_cons, List.map_cons, List.cons_append, firstByLabel_cons, hk,
      if_neg Bool.false_ne_true, firstByLabel_append_of_mem (by simp)]
    refine .cons ⟨rest, rfl⟩ (ih (List.nodup_cons.1 hnodup).2 (unseen_of_nodup hnodup hseen) ?_)
    exact fun row hrow => hne row (List.mem_cons_of_mem _ hrow)

end First

namespace Blueprint

variable {V F : Type} [BEq V] [Hashable V] [LawfulBEq V] {b : Blueprint V F}

/-! ## Vertices -/

/-- If every vertex is declared once then every declaration counts. -/
theorem distinctVertices_eq_self (hnodup : (b.vertices.map Prod.fst).Nodup) :
    b.distinctVertices = b.vertices :=
  firstByLabel_eq_self hnodup (by simp)

theorem labels_eq (hnodup : (b.vertices.map Prod.fst).Nodup) :
    b.labels = b.vertices.map Prod.fst := by
  rw [labels, distinctVertices_eq_self hnodup]

/-- Labels are numbered in order. -/
theorem indexOf_eq {v : V} {k : Nat} (h : b.labels[k]? = some v) : b.indexOf v = k := by
  obtain ⟨hlt, rfl⟩ := List.getElem?_eq_some_iff.1 h
  exact b.labels_nodup.idxOf_getElem k hlt

/-- Labels that are counted off are numbered so, from the labels before them on. -/
theorem indexOf_of_range {front back : List V} {f : Nat → V} {n k : Nat}
    (hlabels : b.labels = front ++ ((List.range n).map f ++ back)) (hk : k < n) :
    b.indexOf (f k) = front.length + k := by
  refine indexOf_eq ?_
  rw [hlabels, List.getElem?_append_right (Nat.le_add_right _ _), Nat.add_sub_cancel_left,
    List.getElem?_append_left (by simpa using hk), List.getElem?_map, List.getElem?_range hk]
  rfl

/-- Positions are numbered as their labels are. -/
theorem getElem?_positions (hnodup : (b.vertices.map Prod.fst).Nodup) {v : V} {p : Point}
    {k : Nat} (h : b.vertices[k]? = some (v, p)) : b.positions[k]? = some p := by
  rw [positions, distinctVertices_eq_self hnodup, List.getElem?_toArray, List.getElem?_map, h]
  rfl

/-! ## Faces -/

omit [LawfulBEq V] in
theorem assembleFaces_of_assemble [BEq F] [Hashable F] {name : Text} {m : Mesh}
    (h : b.assemble name = .ok m) : b.assembleFaces = .ok m.faces := by
  obtain ⟨fs, hfs, rfl⟩ := Except.map_eq_ok.1 h
  exact (faces_eq_ok_iff_assembleFaces.1 hfs).2

variable [BEq F] [Hashable F] [LawfulBEq F]

/-- Faces that are laid out one after another, each once around, are assembled as they are. -/
theorem assembleFaces_eq_ok {outlines : List (F × List V)}
    (hflags : b.flags.map (fun flag => (flag.face, flag.target)) =
      outlines.flatMap fun o => o.2.map (o.1, ·))
    (hnodup : (outlines.map Prod.fst).Nodup)
    (hring : ∀ o ∈ outlines, b.net.Ring o.1 o.2)
    (hdeclared : ∀ o ∈ outlines, ∀ v ∈ o.2, v ∈ b.labels) :
    b.assembleFaces = .ok (outlines.map fun o => o.2.map b.indexOf) := by
  have hne : ∀ o ∈ outlines, o.2 ≠ [] := by
    intro o ho hnil
    have hthree := (hring o ho).three_le
    rw [hnil] at hthree
    simp at hthree
  have hentries : List.Forall₂ (fun o entry => ∃ rest, o = (entry.1, entry.2 :: rest)) outlines
      (b.entries.zipIdx.map Prod.fst) := by
    rw [List.zipIdx_map_fst, entries, hflags]
    exact forall₂_firstByLabel hnodup (by simp) hne
  rw [List.forall₂_map_right_iff] at hentries
  have hall := (List.forall₂_and_left _ _).2
    ⟨fun o ho => And.intro (hring o ho) (hdeclared o ho), hentries⟩
  refine mapM_eq_ok_iff.2 (List.forall₂_map_right_iff.2 (hall.flip.imp ?_))
  rintro ⟨⟨f, entry⟩, k⟩ o ⟨⟨ho, hlabels⟩, rest, rfl⟩
  exact assembleFace_eq_ok ho hlabels

end Blueprint

end Polyhedra
