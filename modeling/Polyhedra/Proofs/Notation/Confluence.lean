import Polyhedra.Proofs.Notation.Passes

/-!
# Confluence

Reduction goes over whole texts in one fixed order, but the order is of no
account: wherever in a notation a rule finds something, replacing that one
occurrence alone leads to the same canonical form.

Reduction and `Text.canonical` agree on notations, since a pass keeps the
latter and a plain notation is its own canonical form.  Confluence follows,
since `Text.canonical` is kept by every single replacement.

## Main results

* `IsNotation.canonical_of_plain` — a plain notation is its own canonical form.
* `IsNotation.output_reduce_eq_canonical` — reduction computes `Text.canonical`.
* `reduce_of_replaces` — one replacement keeps a notation valid and its reduced
  form the same.
-/

namespace Polyhedra

namespace Text

/-! ## Plain texts -/

/-- What a pass leaves out of a text is left out of the rest behind a letter. -/
theorem Omits.of_append {e : Excluded} {s t : Text} (h : Omits (s ++ t) e) : t.Omits e where
  letter d hd hmem := h.letter d hd (List.mem_append_right _ hmem)
  pair p q hpq hin := h.pair p q hpq (hin.trans (List.suffix_append _ _).isInfix)

theorem Omits.head?_ne {e : Excluded} {c d : Char} {t : Text} (h : Omits (c :: t) e)
    (hcd : (c, d) ∈ e.pairs) : t.head? ≠ some d := by
  intro hhead
  obtain ⟨s, rfl⟩ := List.head?_eq_some_iff.1 hhead
  exact h.pair c d hcd ⟨[], s, rfl⟩

theorem Plain.of_append {s t : Text} (h : Plain (s ++ t)) : t.Plain where
  omits := h.omits.of_append
  not_degenerate hdeg := by
    have lift : ∀ {r : Text}, r <:+ t → r <:+ s ++ t := fun hr => hr.trans (List.suffix_append _ _)
    exact h.not_degenerate (hdeg.imp lift (Or.imp lift lift))

theorem Plain.notMem {t : Text} {c : Char} (h : t.Plain) (hc : c ∈ Alphabet.aliases) : c ∉ t := by
  have table : ∀ c ∈ Alphabet.aliases, c ∈ Excluded.byPass.letters :=
    Alphabet.forall_mem_of_all (by decide)
  exact h.omits.letter c (table c hc)

/-! ## Letters that do not merge -/

variable {t : Text}

theorem pushDual_eq_cons (h : ∀ c ∈ 'd' :: Alphabet.fixedSeeds, t.head? ≠ some c) :
    pushDual t = 'd' :: t := by
  rcases pushDual_cases t with ⟨s, rfl⟩ | ⟨c, hc, s, rfl⟩ | ⟨heq, _⟩
  · exact absurd rfl (h 'd' (by simp))
  · exact absurd rfl (h c (by simp [hc]))
  · exact heq

theorem pushAmbo_eq_cons (h : ∀ c ∈ ['d', 'Y', 'T', 'O', 'I'], t.head? ≠ some c) :
    pushAmbo t = 'a' :: t := by
  rw [pushAmbo_eq_plain (h 'd' (by simp))]
  unfold pushAmboPlain
  split
  · exact absurd rfl (h 'Y' (by simp))
  · exact absurd rfl (h 'T' (by simp))
  · exact absurd rfl (h 'O' (by simp))
  · exact absurd rfl (h 'I' (by simp))
  · rfl

theorem pushGyro_eq_cons (h : ∀ c ∈ ['d', 'T', 'O', 'I'], t.head? ≠ some c) :
    pushGyro t = 'g' :: t := by
  rw [pushGyro_eq_plain (h 'd' (by simp))]
  unfold pushGyroPlain
  split
  · exact absurd rfl (h 'T' (by simp))
  · exact absurd rfl (h 'O' (by simp))
  · exact absurd rfl (h 'I' (by simp))
  · rfl

/-- An operator in front of a plain text stays in front of it. -/
private theorem push_plain_operator {c : Char} (hc : Alphabet.isPlainOperator c = true)
    (h : Plain (c :: t)) : push c t = c :: t := by
  have primitive : c ∉ Alphabet.aliases := fun hmem => h.notMem hmem (by simp)
  have apart : ∀ d, (c, d) ∈ Excluded.byPass.pairs → t.head? ≠ some d := fun d => h.omits.head?_ne
  have letters : c ∈ Alphabet.aliases ∨ c = 'a' ∨ c = 'g' ∨ c = 'd' ∨ c = 'c' ∨ c = 'r' ∨
      c = 'p' := by
    have table : ∀ c ∈ Alphabet.plainOperators, c ∈ Alphabet.aliases ∨ c = 'a' ∨ c = 'g' ∨
        c = 'd' ∨ c = 'c' ∨ c = 'r' ∨ c = 'p' := Alphabet.forall_mem_of_all (by decide)
    exact table c (by simpa [Alphabet.isPlainOperator] using hc)
  rcases letters with hmem | rfl | rfl | rfl | rfl | rfl | rfl
  · exact absurd hmem primitive
  · have table : ∀ d ∈ ['d', 'Y', 'T', 'O', 'I'], ('a', d) ∈ Excluded.byPass.pairs :=
      Alphabet.forall_mem_of_all (by decide)
    exact pushAmbo_eq_cons fun d hd => apart d (table d hd)
  · have table : ∀ d ∈ ['d', 'T', 'O', 'I'], ('g', d) ∈ Excluded.byPass.pairs :=
      Alphabet.forall_mem_of_all (by decide)
    exact pushGyro_eq_cons fun d hd => apart d (table d hd)
  · have table : ∀ d ∈ 'd' :: Alphabet.fixedSeeds, ('d', d) ∈ Excluded.byPass.pairs :=
      Alphabet.forall_mem_of_all (by decide)
    exact pushDual_eq_cons fun d hd => apart d (table d hd)
  all_goals rfl

/-- A family letter in front of a side count stays there, unless the seed is degenerate. -/
theorem push_family {c : Char} (hc : Alphabet.isFamilySeed c = true)
    (h : ¬ Degenerate (c :: t)) : push c t = c :: t := by
  rcases Alphabet.eq_of_isFamilySeed hc with rfl | rfl | rfl
  all_goals
    refine if_neg ?_
    rintro rfl
    exact h (by decide)

end Text

open Text

namespace IsNotation

variable {t : Text}

/-- A plain notation is its own canonical form. -/
theorem canonical_of_plain (h : IsNotation t) (hplain : t.Plain) : t.canonical = t := by
  induction h with
  | seed isSeed =>
    cases isSeed with
    | @fixed c letter =>
      rcases Alphabet.eq_of_isFixedSeed letter with rfl | rfl | rfl | rfl | rfl <;> rfl
    | @family c digits letter all_digits =>
      have hdigits : digits.canonical = digits := by
        simpa [canonical] using canonical_digits all_digits []
      rw [canonical_cons, hdigits, push_family letter hplain.not_degenerate]
  | @operator o s isOperator rest ih =>
    have hs := ih hplain.of_append
    cases isOperator with
    | plain letter =>
      rw [List.cons_append, List.nil_append] at hplain ⊢
      rw [canonical_cons, hs, push_plain_operator letter hplain]
    | @selecting c digits letter all_digits =>
      rcases Alphabet.eq_of_isSelectingOperator letter with rfl | rfl
      · rw [List.cons_append, canonical_cons, canonical_digits all_digits, hs]
        rfl
      · exact absurd (by simp) (hplain.notMem (c := 't') (by decide))

theorem of_reduce (h : IsNotation t) :
    IsNotation t.reduce.output ∧ t.reduce.output.canonical = t.canonical :=
  h.of_rewrites t.rewrites_reduce

/-- Reduction computes the canonical form. -/
theorem output_reduce_eq_canonical (h : IsNotation t) : t.reduce.output = t.canonical := by
  obtain ⟨hout, heq⟩ := h.of_reduce
  rw [← heq, hout.canonical_of_plain t.plain_reduce]

end IsNotation

namespace Text

/--
Replacing a single occurrence of what a rule looks for, anywhere in a valid
notation, keeps it valid and leads to the same reduced form.
-/
theorem reduce_of_replaces {s t : Text} {r : Rule} (hr : r ∈ Rule.table)
    (hvalid : s.validate = .ok ()) (hstep : r.Replaces s t) :
    t.validate = .ok () ∧ t.reduce.output = s.reduce.output := by
  have hs := validate_eq_ok_iff_isNotation.1 hvalid
  obtain ⟨ht, heq⟩ := hs.of_replaces hr hstep
  refine ⟨validate_eq_ok_iff_isNotation.2 ht, ?_⟩
  rw [ht.output_reduce_eq_canonical, hs.output_reduce_eq_canonical, heq]

/-- In `addC` a pass strikes out the two duals, but ambo may as well absorb one of them. -/
theorem reduce_of_replaces_ambo_dual :
    Rule.literal ['a', 'd'] ['a'] ∈ Rule.table ∧
      validate ['a', 'd', 'd', 'C'] = .ok () ∧
      (Rule.literal ['a', 'd'] ['a']).Replaces ['a', 'd', 'd', 'C'] ['a', 'd', 'C'] ∧
      validate ['a', 'd', 'C'] = .ok () ∧
      (reduce ['a', 'd', 'C']).output = (reduce ['a', 'd', 'd', 'C']).output := by
  have hr : Rule.literal ['a', 'd'] ['a'] ∈ Rule.table := by decide
  have hvalid : validate ['a', 'd', 'd', 'C'] = .ok () := by decide
  have hstep :
      (Rule.literal ['a', 'd'] ['a']).Replaces ['a', 'd', 'd', 'C'] ['a', 'd', 'C'] :=
    .literal ['a', 'd'] ['a'] [] ['d', 'C']
  exact ⟨hr, hvalid, hstep, reduce_of_replaces hr hvalid hstep⟩

end Text

end Polyhedra
