import Polyhedra.Mesh.Face
import Mathlib.Data.List.Nodup
import Mathlib.Data.List.Rotate

/-!
# Cyclic sequences

A face is a list read cyclically.  `next n k` is the place after place `k` on a
circle of `n` places, and `mem_cycleEdges_iff` says that the edges of a cycle
lead from each place to the next one; what is said here of edges and corners
follows from that.

## Main results

* `mem_cycleEdges_iff` — edges by places.
* `cycleEdges_right_unique`, `cycleEdges_left_unique` — in a cycle without
  repetitions every entry has one successor and one predecessor.
* `not_mem_cycleEdges_swap` — a cycle of three or more runs along no edge both
  ways.
* `mem_cycleCorners_iff` — corners are pairs of edges that meet.
* `mem_cycleEdges_flatMap` — a cycle of blocks runs within blocks and from one
  block to the next.
-/

namespace Polyhedra

variable {α β : Type}

/-! ## Places on a circle -/

/-- The place after place `k` on a circle of `n` places. -/
def next (n k : Nat) : Nat := if k + 1 = n then 0 else k + 1

theorem next_lt {n k : Nat} (h : k < n) : next n k < n := by
  unfold next
  split <;> omega

theorem next_inj {n j k : Nat} (h : next n j = next n k) : j = k := by
  unfold next at h
  split at h <;> split at h <;> omega

theorem exists_next_eq {n k : Nat} (h : k < n) : ∃ j, j < n ∧ next n j = k := by
  unfold next
  cases k with
  | zero => exact ⟨n - 1, by omega, by rw [if_pos (by omega)]⟩
  | succ k => exact ⟨k, by omega, by rw [if_neg (by omega)]⟩

theorem next_ne {n k : Nat} (hn : 2 ≤ n) : next n k ≠ k := by
  unfold next
  split <;> omega

theorem next_next_ne {n k : Nat} (hn : 3 ≤ n) : next n (next n k) ≠ k := by
  unfold next
  split <;> split <;> omega

theorem mod_eq_next {n k : Nat} (h : k < n) : (k + 1) % n = next n k := by
  unfold next
  split
  · next hk => rw [hk, Nat.mod_self]
  · exact Nat.mod_eq_of_lt (by omega)

/-! ## Edges -/

theorem length_cycleEdges (l : List α) : (cycleEdges l).length = l.length := by
  simp [cycleEdges]

/-- The edges of a cycle begin in each of its entries. -/
theorem perm_map_fst_cycleEdges (l : List α) : ((cycleEdges l).map Prod.fst).Perm l := by
  rw [cycleEdges, List.map_fst_zip (by simp)]
  rcases List.eq_nil_or_concat l with rfl | ⟨m, a, rfl⟩
  · rfl
  · rw [List.concat_eq_append, previous_concat]
    exact (List.perm_append_singleton a m).symm

/-- The edges of a cycle end in its entries, in order. -/
theorem map_snd_cycleEdges (l : List α) : (cycleEdges l).map Prod.snd = l := by
  rw [cycleEdges, List.map_snd_zip (by simp)]

theorem getElem?_previous_next {l : List α} {k : Nat} (h : k < l.length) :
    (previous l)[next l.length k]? = l[k]? := by
  rcases List.eq_nil_or_concat l with rfl | ⟨m, a, rfl⟩
  · cases h
  · rw [List.concat_eq_append] at *
    rw [previous_concat]
    unfold next
    split
    · next hk =>
      have : k = m.length := by simpa using hk
      simp [this]
    · next hk =>
      have : k < m.length := by
        simp only [List.length_append, List.length_cons, List.length_nil] at h hk
        omega
      rw [List.getElem?_cons_succ, List.getElem?_append_left this]

/-- The edges of a cycle lead from each place to the next one. -/
theorem mem_cycleEdges_iff {l : List α} {a b : α} :
    (a, b) ∈ cycleEdges l ↔
      ∃ k, k < l.length ∧ l[k]? = some a ∧ l[next l.length k]? = some b := by
  rw [List.mem_iff_getElem?]
  constructor
  · rintro ⟨j, hj⟩
    rw [cycleEdges, List.getElem?_zip_eq_some] at hj
    have hlt : j < l.length := (List.getElem?_eq_some_iff.1 hj.2).1
    obtain ⟨k, hk, rfl⟩ := exists_next_eq hlt
    rw [getElem?_previous_next hk] at hj
    exact ⟨k, hk, hj.1, hj.2⟩
  · rintro ⟨k, hk, ha, hb⟩
    refine ⟨next l.length k, ?_⟩
    rw [cycleEdges, List.getElem?_zip_eq_some, getElem?_previous_next hk]
    exact ⟨ha, hb⟩

section Entries

variable {l : List α} {a b c : α}

theorem mem_left_of_mem_cycleEdges (h : (a, b) ∈ cycleEdges l) : a ∈ l := by
  obtain ⟨_, _, ha, _⟩ := mem_cycleEdges_iff.1 h
  exact List.mem_of_getElem? ha

theorem mem_right_of_mem_cycleEdges (h : (a, b) ∈ cycleEdges l) : b ∈ l := by
  obtain ⟨_, _, _, hb⟩ := mem_cycleEdges_iff.1 h
  exact List.mem_of_getElem? hb

theorem exists_mem_cycleEdges_left (h : a ∈ l) : ∃ b, (a, b) ∈ cycleEdges l := by
  obtain ⟨k, hk⟩ := List.mem_iff_getElem?.1 h
  have hlt := (List.getElem?_eq_some_iff.1 hk).1
  have hnext := List.getElem?_eq_getElem (next_lt hlt)
  exact ⟨_, mem_cycleEdges_iff.2 ⟨k, hlt, hk, hnext⟩⟩

theorem exists_mem_cycleEdges_right (h : b ∈ l) : ∃ a, (a, b) ∈ cycleEdges l := by
  obtain ⟨k, hk⟩ := List.mem_iff_getElem?.1 h
  obtain ⟨j, hj, rfl⟩ := exists_next_eq (List.getElem?_eq_some_iff.1 hk).1
  exact ⟨_, mem_cycleEdges_iff.2 ⟨j, hj, List.getElem?_eq_getElem hj, hk⟩⟩

/-- A place of a list without repetitions is told by its entry. -/
theorem place_unique (hl : l.Nodup) {j k : Nat} (hj : l[j]? = some a) (hk : l[k]? = some a) :
    j = k :=
  (List.getElem?_inj (List.getElem?_eq_some_iff.1 hj).1 hl).1 (hj.trans hk.symm)

theorem cycleEdges_right_unique (hl : l.Nodup) (hb : (a, b) ∈ cycleEdges l)
    (hc : (a, c) ∈ cycleEdges l) : b = c := by
  obtain ⟨j, _, hja, hjb⟩ := mem_cycleEdges_iff.1 hb
  obtain ⟨k, _, hka, hkc⟩ := mem_cycleEdges_iff.1 hc
  obtain rfl := place_unique hl hja hka
  exact Option.some.inj (hjb.symm.trans hkc)

theorem cycleEdges_left_unique (hl : l.Nodup) (ha : (a, c) ∈ cycleEdges l)
    (hb : (b, c) ∈ cycleEdges l) : a = b := by
  obtain ⟨j, _, hja, hjc⟩ := mem_cycleEdges_iff.1 ha
  obtain ⟨k, _, hkb, hkc⟩ := mem_cycleEdges_iff.1 hb
  obtain rfl := next_inj (place_unique hl hjc hkc)
  exact Option.some.inj (hja.symm.trans hkb)

theorem ne_of_mem_cycleEdges (hl : l.Nodup) (htwo : 2 ≤ l.length) (h : (a, b) ∈ cycleEdges l) :
    a ≠ b := by
  rintro rfl
  obtain ⟨k, _, hka, hkb⟩ := mem_cycleEdges_iff.1 h
  exact next_ne htwo (place_unique hl hkb hka)

/-- A cycle of three or more runs along no edge both ways. -/
theorem not_mem_cycleEdges_swap (hl : l.Nodup) (hthree : 3 ≤ l.length)
    (h : (a, b) ∈ cycleEdges l) : (b, a) ∉ cycleEdges l := by
  intro hswap
  obtain ⟨j, _, hja, hjb⟩ := mem_cycleEdges_iff.1 h
  obtain ⟨k, _, hkb, hka⟩ := mem_cycleEdges_iff.1 hswap
  obtain rfl := place_unique hl hkb hjb
  exact next_next_ne hthree (place_unique hl hka hja)

theorem nodup_cycleEdges (hl : l.Nodup) : (cycleEdges l).Nodup := by
  refine List.Nodup.of_map Prod.snd ?_
  rwa [map_snd_cycleEdges]

end Entries

/-! ## Short cycles -/

section Short

variable {a b c d e x y : α}

theorem mem_cycleEdges_three :
    (x, y) ∈ cycleEdges [a, b, c] ↔ (x = c ∧ y = a) ∨ (x = a ∧ y = b) ∨ (x = b ∧ y = c) := by
  simp [cycleEdges, previous]

theorem mem_cycleEdges_four :
    (x, y) ∈ cycleEdges [a, b, c, d] ↔
      (x = d ∧ y = a) ∨ (x = a ∧ y = b) ∨ (x = b ∧ y = c) ∨ (x = c ∧ y = d) := by
  simp [cycleEdges, previous]

theorem mem_cycleEdges_five :
    (x, y) ∈ cycleEdges [a, b, c, d, e] ↔
      (x = e ∧ y = a) ∨ (x = a ∧ y = b) ∨ (x = b ∧ y = c) ∨ (x = c ∧ y = d) ∨
        (x = d ∧ y = e) := by
  simp [cycleEdges, previous]

/-- Any two members of a cycle of three are neighbours. -/
theorem joined_of_mem_three (hne : x ≠ y) (hx : x ∈ [a, b, c]) (hy : y ∈ [a, b, c]) :
    (x, y) ∈ cycleEdges [a, b, c] ∨ (y, x) ∈ cycleEdges [a, b, c] := by
  simp only [mem_cycleEdges_three, List.mem_cons, List.not_mem_nil, or_false] at *
  grind

end Short

/-! ## Cycles made from cycles -/

theorem previous_map (f : α → β) (l : List α) : previous (l.map f) = (previous l).map f := by
  rcases List.eq_nil_or_concat l with rfl | ⟨m, a, rfl⟩
  · rfl
  · rw [List.concat_eq_append, List.map_append, List.map_singleton, previous_concat,
      previous_concat, List.map_cons]

theorem cycleEdges_map (f : α → β) (l : List α) :
    cycleEdges (l.map f) = (cycleEdges l).map (Prod.map f f) := by
  rw [cycleEdges, cycleEdges, previous_map, List.zip_map]

theorem mem_cycleEdges_map {f : α → β} {l : List α} {x y : β} :
    (x, y) ∈ cycleEdges (l.map f) ↔ ∃ a b, (a, b) ∈ cycleEdges l ∧ f a = x ∧ f b = y := by
  rw [cycleEdges_map, List.mem_map]
  constructor
  · rintro ⟨⟨a, b⟩, hab, heq⟩
    exact ⟨a, b, hab, (Prod.mk.inj heq).1, (Prod.mk.inj heq).2⟩
  · rintro ⟨a, b, hab, rfl, rfl⟩
    exact ⟨(a, b), hab, rfl⟩

/-- Run backwards, a cycle has its edges the other way round. -/
theorem mem_cycleEdges_reverse {l : List α} {a b : α} :
    (a, b) ∈ cycleEdges l.reverse ↔ (b, a) ∈ cycleEdges l := by
  have half : ∀ {l : List α} {a b : α}, (a, b) ∈ cycleEdges l → (b, a) ∈ cycleEdges l.reverse := by
    intro l a b h
    obtain ⟨k, hk, ha, hb⟩ := mem_cycleEdges_iff.1 h
    have hlt := next_lt hk
    refine mem_cycleEdges_iff.2 ⟨l.length - 1 - next l.length k, by simp; omega, ?_, ?_⟩
    · rw [List.getElem?_reverse (by omega), ← hb]
      congr 1
      omega
    · have hplace : next l.length (l.length - 1 - next l.length k) = l.length - 1 - k := by
        unfold next
        split <;> split <;> omega
      rw [List.length_reverse, hplace, List.getElem?_reverse (by omega), ← ha]
      congr 1
      omega
  refine ⟨fun h => ?_, half⟩
  simpa using half h

/-- It does not matter where a cycle begins. -/
theorem mem_cycleEdges_of_append {l m : List α} {a b : α} :
    (a, b) ∈ cycleEdges (l ++ m) → (a, b) ∈ cycleEdges (m ++ l) := by
  intro h
  obtain ⟨k, hk, ha, hb⟩ := mem_cycleEdges_iff.1 h
  rw [List.length_append] at hk hb
  have shift : ∀ {j : Nat} {x : α}, (l ++ m)[j]? = some x →
      (m ++ l)[if j < l.length then j + m.length else j - l.length]? = some x := by
    intro j x hj
    split
    · next hlt =>
      rw [List.getElem?_append_left hlt] at hj
      rw [List.getElem?_append_right (by omega), Nat.add_sub_cancel, hj]
    · next hlt =>
      rw [List.getElem?_append_right (by omega)] at hj
      have := (List.getElem?_eq_some_iff.1 hj).1
      rw [List.getElem?_append_left this, hj]
  refine mem_cycleEdges_iff.2 ⟨_, ?_, shift ha, ?_⟩
  · rw [List.length_append]
    split <;> omega
  · have hplace : next (m ++ l).length (if k < l.length then k + m.length else k - l.length) =
        if next (l.length + m.length) k < l.length then next (l.length + m.length) k + m.length
        else next (l.length + m.length) k - l.length := by
      rw [List.length_append]
      unfold next
      split_ifs <;> omega
    rw [hplace]
    exact shift hb

theorem mem_cycleEdges_append_comm {l m : List α} {a b : α} :
    (a, b) ∈ cycleEdges (l ++ m) ↔ (a, b) ∈ cycleEdges (m ++ l) :=
  ⟨mem_cycleEdges_of_append, mem_cycleEdges_of_append⟩

theorem mem_cycleEdges_rotate {l : List α} {k : Nat} (hk : k ≤ l.length) {a b : α} :
    (a, b) ∈ cycleEdges (l.rotate k) ↔ (a, b) ∈ cycleEdges l := by
  rw [List.rotate_eq_drop_append_take hk, mem_cycleEdges_append_comm, List.take_append_drop]

/-- The edges of a cycle do not tell where it begins. -/
theorem mem_cycleEdges_of_isRotated {l l' : List α} (h : l.IsRotated l') {a b : α} :
    (a, b) ∈ cycleEdges l ↔ (a, b) ∈ cycleEdges l' := by
  obtain ⟨n, hn, rfl⟩ := List.isRotated_iff_mod.1 h
  exact (mem_cycleEdges_rotate hn).symm

/-- An edge of a cycle lies in the list, or leads from its end to its beginning. -/
theorem mem_cycleEdges_cases {l : List α} {a b : α} (h : (a, b) ∈ cycleEdges l) :
    (∃ s t, l = s ++ a :: b :: t) ∨ (l.getLast? = some a ∧ l.head? = some b) := by
  obtain ⟨k, hk, ha, hb⟩ := mem_cycleEdges_iff.1 h
  unfold next at hb
  split at hb
  · next hlast =>
    refine .inr ⟨?_, by rwa [List.head?_eq_getElem?]⟩
    rw [List.getLast?_eq_getElem?, ← ha]
    congr 1
    omega
  · obtain ⟨hk', hbk⟩ := List.getElem?_eq_some_iff.1 hb
    obtain ⟨_, hak⟩ := List.getElem?_eq_some_iff.1 ha
    refine .inl ⟨l.take k, l.drop (k + 2), ?_⟩
    rw [← hak, ← hbk, List.getElem_cons_drop, List.getElem_cons_drop, List.take_append_drop]

private theorem eq_append_of_flatMap {f : α → List β} {l : List α} (hne : ∀ a ∈ l, f a ≠ [])
    {s t : List β} {x y : β} (h : l.flatMap f = s ++ x :: y :: t) :
    (∃ a ∈ l, ∃ s t, f a = s ++ x :: y :: t) ∨
      ∃ m a b n, l = m ++ a :: b :: n ∧ (f a).getLast? = some x ∧ (f b).head? = some y := by
  induction l generalizing s with
  | nil => simp at h
  | cons a l ih =>
    have later : ∀ s' : List β, l.flatMap f = s' ++ x :: y :: t →
        (∃ b ∈ a :: l, ∃ s t, f b = s ++ x :: y :: t) ∨
          ∃ m b c n, a :: l = m ++ b :: c :: n ∧ (f b).getLast? = some x ∧
            (f c).head? = some y := by
      intro s' hs'
      rcases ih (fun b hb => hne b (List.mem_cons_of_mem _ hb)) hs' with
        ⟨b, hb, hin⟩ | ⟨m, b, c, n, rfl, hends⟩
      · exact .inl ⟨b, List.mem_cons_of_mem _ hb, hin⟩
      · exact .inr ⟨a :: m, b, c, n, rfl, hends⟩
    rw [List.flatMap_cons] at h
    rcases List.append_eq_append_iff.1 h with ⟨s', rfl, hs'⟩ | ⟨r, hfa, hr⟩
    · exact later s' hs'
    · -- the block of `a` ends in front of `x`, behind `x`, or behind `y`
      rcases r with _ | ⟨x', r⟩
      · exact later [] hr.symm
      · rw [List.cons_append, List.cons.injEq] at hr
        obtain ⟨rfl, hr⟩ := hr
        rcases r with _ | ⟨y', r⟩
        · rw [List.nil_append] at hr
          cases l with
          | nil => simp at hr
          | cons b n =>
            refine .inr ⟨[], a, b, n, rfl, by simp [hfa], ?_⟩
            have hb := hne b (by simp)
            rw [List.flatMap_cons] at hr
            have hhead := congrArg List.head? hr
            rw [List.head?_append_of_ne_nil _ hb] at hhead
            exact hhead.symm
        · rw [List.cons_append, List.cons.injEq] at hr
          obtain ⟨rfl, _⟩ := hr
          exact .inl ⟨a, by simp, s, r, hfa⟩

/-- A cycle of blocks runs within a block, or from one block to the next. -/
theorem mem_cycleEdges_flatMap {f : α → List β} {l : List α} (hne : ∀ a ∈ l, f a ≠ []) {x y : β}
    (h : (x, y) ∈ cycleEdges (l.flatMap f)) :
    (∃ a ∈ l, ∃ s t, f a = s ++ x :: y :: t) ∨
      ∃ a b, (a, b) ∈ cycleEdges l ∧ (f a).getLast? = some x ∧ (f b).head? = some y := by
  rcases mem_cycleEdges_cases h with ⟨s, t, hin⟩ | ⟨hlast, hhead⟩
  · rcases eq_append_of_flatMap hne hin with hblock | ⟨m, a, b, n, rfl, hends⟩
    · exact .inl hblock
    · refine .inr ⟨a, b, mem_cycleEdges_iff.2 ⟨m.length, by simp, by simp, ?_⟩, hends⟩
      unfold next
      rw [if_neg (by simp)]
      simp
  · cases l with
    | nil => simp at hlast
    | cons b l =>
      rcases List.eq_nil_or_concat (b :: l) with hnil | ⟨m, a, hl⟩
      · simp at hnil
      · have ha := hne a (by simp [hl])
        refine .inr ⟨a, b, mem_cycleEdges_iff.2 ⟨m.length, by simp [hl], by simp [hl], ?_⟩, ?_, ?_⟩
        · unfold next
          rw [if_pos (by simp [hl])]
          rfl
        · rw [hl, List.concat_eq_append, List.flatMap_append, List.flatMap_singleton,
            List.getLast?_append_of_ne_nil _ ha] at hlast
          exact hlast
        · rw [List.flatMap_cons, List.head?_append_of_ne_nil _ (hne b (by simp))] at hhead
          exact hhead

/-! ## Corners -/

section Corners

variable {l : List α} {u v w : α}

theorem mem_cycleCorners_places :
    (u, v, w) ∈ cycleCorners l ↔
      ∃ k, k < l.length ∧ l[k]? = some u ∧ l[next l.length k]? = some v ∧
        l[next l.length (next l.length k)]? = some w := by
  have hprevious : ∀ {k}, k < l.length →
      (previous (previous l))[next l.length (next l.length k)]? = l[k]? := by
    intro k hk
    have h := getElem?_previous_next (l := previous l) (k := next l.length k)
      (by simpa using next_lt hk)
    rw [length_previous] at h
    rw [h, getElem?_previous_next hk]
  rw [List.mem_iff_getElem?]
  constructor
  · rintro ⟨i, hi⟩
    rw [cycleCorners, List.getElem?_zip_eq_some, cycleEdges, List.getElem?_zip_eq_some] at hi
    obtain ⟨hu, hv, hw⟩ := hi
    obtain ⟨j, hj, rfl⟩ := exists_next_eq (List.getElem?_eq_some_iff.1 hw).1
    obtain ⟨k, hk, rfl⟩ := exists_next_eq hj
    rw [hprevious hk] at hu
    rw [getElem?_previous_next hj] at hv
    exact ⟨k, hk, hu, hv, hw⟩
  · rintro ⟨k, hk, hu, hv, hw⟩
    refine ⟨next l.length (next l.length k), ?_⟩
    rw [cycleCorners, List.getElem?_zip_eq_some, cycleEdges, List.getElem?_zip_eq_some,
      hprevious hk, getElem?_previous_next (next_lt hk)]
    exact ⟨hu, hv, hw⟩

/-- The corners of a cycle without repetitions are the pairs of edges that meet. -/
theorem mem_cycleCorners_iff (hl : l.Nodup) :
    (u, v, w) ∈ cycleCorners l ↔ (u, v) ∈ cycleEdges l ∧ (v, w) ∈ cycleEdges l := by
  rw [mem_cycleCorners_places, mem_cycleEdges_iff, mem_cycleEdges_iff]
  constructor
  · rintro ⟨k, hk, hu, hv, hw⟩
    exact ⟨⟨k, hk, hu, hv⟩, _, next_lt hk, hv, hw⟩
  · rintro ⟨⟨k, hk, hu, hv⟩, j, _, hv', hw⟩
    obtain rfl := place_unique hl hv' hv
    exact ⟨k, hk, hu, hv, hw⟩

theorem length_cycleCorners : (cycleCorners l).length = l.length := by
  simp [cycleCorners, length_cycleEdges]

theorem nodup_cycleCorners (hl : l.Nodup) : (cycleCorners l).Nodup := by
  refine List.Nodup.of_map Prod.snd ?_
  rw [cycleCorners, List.map_snd_zip (by simp [length_cycleEdges])]
  exact nodup_cycleEdges hl

/-- One edge follows another in the cycle of edges where they meet in a corner. -/
theorem mem_cycleEdges_cycleEdges {e e' : α × α} :
    (e, e') ∈ cycleEdges (cycleEdges l) ↔
      ∃ u v w, (u, v, w) ∈ cycleCorners l ∧ e = (u, v) ∧ e' = (v, w) := by
  have edge : ∀ {k u v}, k < l.length → ((cycleEdges l)[next l.length k]? = some (u, v) ↔
      l[k]? = some u ∧ l[next l.length k]? = some v) := by
    intro k u v hk
    rw [cycleEdges, List.getElem?_zip_eq_some, getElem?_previous_next hk]
  rw [mem_cycleEdges_iff, length_cycleEdges]
  constructor
  · rintro ⟨j, hj, he, he'⟩
    obtain ⟨k, hk, rfl⟩ := exists_next_eq hj
    obtain ⟨hu, hv⟩ := (edge hk).1 he
    obtain ⟨hv', hw⟩ := (edge (next_lt hk)).1 he'
    refine ⟨e.1, e.2, e'.2, mem_cycleCorners_places.2 ⟨k, hk, hu, hv, hw⟩, rfl, ?_⟩
    rw [Option.some.inj (hv.symm.trans hv')]
  · rintro ⟨u, v, w, hcorner, rfl, rfl⟩
    obtain ⟨k, hk, hu, hv, hw⟩ := mem_cycleCorners_places.1 hcorner
    exact ⟨_, next_lt hk, (edge hk).2 ⟨hu, hv⟩, (edge (next_lt hk)).2 ⟨hv, hw⟩⟩

end Corners

end Polyhedra
