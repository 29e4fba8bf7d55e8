import Std.Data.HashMap
import Std.Data.HashSet

/-!
# Labelled entries

A list of entries with labels can be read in two ways: the first entry of each
label counts, or the last one does. `firstByLabel` keeps the first entries in
their order; `lastByLabel` is a hash table with the last ones.
-/

namespace Polyhedra

section First

variable {K A : Type} [BEq K] [Hashable K]

/-- Keeps the entries with new labels, behind those kept before; the last one stands first. -/
def keepFirst (seen : Std.HashSet K) (kept : List (K × A)) : List (K × A) → List (K × A)
  | [] => kept.reverse
  | (k, a) :: rest =>
    if seen.contains k then keepFirst seen kept rest
    else keepFirst (seen.insert k) ((k, a) :: kept) rest

/-- The entries whose label is neither in `seen` nor the label of an earlier entry. -/
def firstByLabel (seen : Std.HashSet K) (l : List (K × A)) : List (K × A) := keepFirst seen [] l

theorem keepFirst_eq (seen : Std.HashSet K) (kept l : List (K × A)) :
    keepFirst seen kept l = kept.reverse ++ firstByLabel seen l := by
  unfold firstByLabel
  induction l generalizing seen kept with
  | nil => simp [keepFirst]
  | cons entry rest ih =>
    obtain ⟨k, a⟩ := entry
    rw [keepFirst, keepFirst]
    split
    · exact ih seen kept
    · rw [ih (seen.insert k) ((k, a) :: kept), ih (seen.insert k) [(k, a)]]
      simp

@[simp]
theorem firstByLabel_nil (seen : Std.HashSet K) : firstByLabel seen ([] : List (K × A)) = [] := rfl

theorem firstByLabel_cons (seen : Std.HashSet K) (k : K) (a : A) (rest : List (K × A)) :
    firstByLabel seen ((k, a) :: rest) =
      if seen.contains k then firstByLabel seen rest
      else (k, a) :: firstByLabel (seen.insert k) rest := by
  rw [firstByLabel, keepFirst]
  split
  · rfl
  · exact keepFirst_eq _ _ _

variable [LawfulBEq K]

/-- A label is kept if it occurs and was not seen before. -/
theorem mem_keys_firstByLabel {seen : Std.HashSet K} {l : List (K × A)} {k : K} :
    k ∈ (firstByLabel seen l).map Prod.fst ↔ k ∈ l.map Prod.fst ∧ k ∉ seen := by
  induction l generalizing seen with
  | nil => simp
  | cons entry rest ih =>
    obtain ⟨key, a⟩ := entry
    rw [firstByLabel_cons, List.map_cons, List.mem_cons]
    by_cases h : key ∈ seen
    · rw [if_pos (by simpa using h), ih]
      constructor
      · exact fun hk => ⟨Or.inr hk.1, hk.2⟩
      · rintro ⟨rfl | hk, hnot⟩
        · exact absurd h hnot
        · exact ⟨hk, hnot⟩
    · rw [if_neg (by simpa using h), List.map_cons, List.mem_cons, ih, Std.HashSet.mem_insert]
      constructor
      · rintro (rfl | ⟨hk, hnot⟩)
        · exact ⟨Or.inl rfl, h⟩
        · exact ⟨Or.inr hk, fun hseen => hnot (Or.inr hseen)⟩
      · rintro ⟨hk, hnot⟩
        by_cases hkey : k = key
        · exact Or.inl hkey
        · refine Or.inr ⟨hk.resolve_left hkey, ?_⟩
          rintro (heq | hseen)
          · exact hkey (eq_of_beq heq).symm
          · exact hnot hseen

/-- No label is kept twice. -/
theorem nodup_keys_firstByLabel (seen : Std.HashSet K) (l : List (K × A)) :
    ((firstByLabel seen l).map Prod.fst).Nodup := by
  induction l generalizing seen with
  | nil => simp
  | cons entry rest ih =>
    obtain ⟨key, a⟩ := entry
    rw [firstByLabel_cons]
    split
    · exact ih seen
    · rw [List.map_cons, List.nodup_cons]
      refine ⟨fun hmem => ?_, ih _⟩
      have := (mem_keys_firstByLabel.1 hmem).2
      simp at this

/-- The labels are kept in the order in which they first occur. -/
theorem map_fst_firstByLabel (seen : Std.HashSet K) (l : List (K × A)) :
    (firstByLabel seen l).map Prod.fst =
      ((l.map Prod.fst).filter fun k => !seen.contains k).eraseDups := by
  induction l generalizing seen with
  | nil => simp
  | cons entry rest ih =>
    obtain ⟨key, a⟩ := entry
    rw [firstByLabel_cons, List.map_cons]
    cases hkey : seen.contains key with
    | true =>
      rw [if_pos rfl, ih, List.filter_cons_of_neg (by simp [hkey])]
    | false =>
      rw [if_neg (by simp), List.map_cons, ih, List.filter_cons_of_pos (by simp [hkey]),
        List.eraseDups_cons, List.filter_filter]
      congr 2
      refine List.filter_congr fun k _ => ?_
      rw [Std.HashSet.contains_insert, Bool.not_or, BEq.comm]

/-- If nothing was seen before then every label is kept. -/
theorem map_fst_firstByLabel_empty (l : List (K × A)) :
    (firstByLabel ∅ l).map Prod.fst = (l.map Prod.fst).eraseDups := by
  rw [map_fst_firstByLabel, List.filter_eq_self.2]
  simp

/-- A kept entry is the first one of its label. -/
theorem lookup_of_mem_firstByLabel {seen : Std.HashSet K} {l : List (K × A)} {k : K} {a : A}
    (h : (k, a) ∈ firstByLabel seen l) : l.lookup k = some a := by
  induction l generalizing seen with
  | nil => simp at h
  | cons entry rest ih =>
    obtain ⟨key, x⟩ := entry
    have hunseen := (mem_keys_firstByLabel.1 (List.mem_map.2 ⟨(k, a), h, rfl⟩)).2
    rw [firstByLabel_cons] at h
    split at h
    · next hkey =>
      have hne : k ≠ key := by
        rintro rfl
        exact hunseen hkey
      rw [List.lookup_cons, beq_false_of_ne hne]
      exact ih h
    · rcases List.mem_cons.1 h with heq | hrest
      · obtain ⟨rfl, rfl⟩ := Prod.mk.inj heq
        simp
      · have hnew := (mem_keys_firstByLabel.1 (List.mem_map.2 ⟨(k, a), hrest, rfl⟩)).2
        have hne : k ≠ key := by
          rintro rfl
          simp at hnew
        rw [List.lookup_cons, beq_false_of_ne hne]
        exact ih hrest

end First

/-- A list without its repetitions has none. -/
theorem nodup_eraseDups {K : Type} [BEq K] [Hashable K] [LawfulBEq K] (l : List K) :
    l.eraseDups.Nodup := by
  have hkeys : (l.map fun k => (k, ())).map Prod.fst = l := by
    rw [List.map_map]
    exact List.map_id l
  rw [← hkeys, ← map_fst_firstByLabel_empty]
  exact nodup_keys_firstByLabel ∅ _

section Last

variable {K A : Type} [BEq K] [Hashable K]

/-- The table in which the last entry of a label counts, made large enough for all entries. -/
def lastByLabel (l : List (K × A)) : Std.HashMap K A :=
  (Std.HashMap.emptyWithCapacity l.length).insertMany l

theorem getElem?_lastByLabel [EquivBEq K] [LawfulHashable K] (l : List (K × A)) (k : K) :
    (lastByLabel l)[k]? =
      l.reverse.findSome? fun (label, a) => if label == k then some a else none := by
  rw [lastByLabel, Std.HashMap.getElem?_insertMany_list]
  simp

variable [LawfulBEq K] {l : List (K × A)} {k : K} {a : A}

/-- What a table holds is an entry of the list that it was made from. -/
theorem mem_of_getElem?_lastByLabel (h : (lastByLabel l)[k]? = some a) : (k, a) ∈ l := by
  rw [getElem?_lastByLabel] at h
  obtain ⟨⟨label, b⟩, hmem, heq⟩ := List.exists_of_findSome?_eq_some h
  by_cases hlabel : label == k
  · simp only [if_pos hlabel, Option.some.injEq] at heq
    rw [← heq, ← eq_of_beq hlabel]
    exact List.mem_reverse.1 hmem
  · simp [hlabel] at heq

/-- If no label occurs twice then a table holds just the entries of its list. -/
theorem getElem?_lastByLabel_eq_some_iff (hnodup : (l.map Prod.fst).Nodup) :
    (lastByLabel l)[k]? = some a ↔ (k, a) ∈ l := by
  have distinct : l.Pairwise fun x y => (x.1 == y.1) = false := by
    rw [List.nodup_iff_pairwise_ne, List.pairwise_map] at hnodup
    exact hnodup.imp fun hne => by simpa using hne
  exact ⟨mem_of_getElem?_lastByLabel, fun h =>
    Std.HashMap.getElem?_insertMany_list_of_mem BEq.rfl distinct h⟩

theorem mem_lastByLabel : k ∈ lastByLabel l ↔ k ∈ l.map Prod.fst := by
  simp [lastByLabel]

end Last

end Polyhedra
