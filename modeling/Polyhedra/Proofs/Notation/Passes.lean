import Polyhedra.Notation.Compiled
import Polyhedra.Proofs.Notation.Canonicalizer
import Mathlib.Logic.Function.Iterate

/-!
# Passes

A pass tries the 25 rules of the table in turn.  One pass is enough for all of
them but the three that collapse degenerate seeds: those are tried first, and
a pass may bring up a degenerate seed behind them, when it strikes out two
duals between a family letter and its side count, as in `Pdd4`.  The second
pass collapses it, and then the text ends in a letter for good.  In a notation
the digits of a seed stand behind their letter from the start, and one pass
does.

## Main results

* `omits_pass` — no alias, and no pair of neighbours that a rule looks for, is
  left by a pass.
* `Text.rewrites_reduce` — reduction goes from single occurrence to single occurrence.
* `plain_pass_pass` — two passes lead to a text in which no rule finds anything.
* `plain_pass` — one pass does for a notation.
* `reduce_reaches_canonical` — the passes end in a canonical text, and the bound
  on their number is never met.
-/

namespace Polyhedra

/-! ## A pass -/

namespace Text

/-- The rules of the table, each applied once to the outcome of the one before. -/
@[irreducible] def pass (t : Text) : Text := (Rule.applyInTurn Rule.table t).1

end Text

theorem Rule.applyInTurn_fst (rules : List Rule) (t : Text) :
    (applyInTurn rules t).1 = rules.foldl (fun u r => r.apply u) t := by
  induction rules generalizing t with
  | nil => rfl
  | cons r rules ih => exact ih (r.apply t)

/-- Rules that leave the text as it is do not fire. -/
theorem Rule.applyInTurn_eq_self {rules : List Rule} {t : Text}
    (h : ∀ r ∈ rules, r.apply t = t) : applyInTurn rules t = (t, []) := by
  induction rules with
  | nil => rfl
  | cons r rules ih =>
    have hr := h r (by simp)
    simp only [applyInTurn, hr, ih fun s hs => h s (by simp [hs])]
    rfl

namespace Excluded

/-- What no text has after a pass: aliases, and the pairs that rules look for. -/
def byPass : Excluded := Rule.table.foldl after ⟨[], []⟩

/-- All rules but those for degenerate seeds find nothing after a pass. -/
theorem bars_byPass : ∀ r ∈ Rule.table.drop 3, byPass.bars r = true := by
  decide

end Excluded

namespace Text

theorem pass_eq_foldl (t : Text) : t.pass = Rule.table.foldl (fun u r => r.apply u) t := by
  rw [pass, Rule.applyInTurn_fst]

/-- No alias, and no pair of neighbours that a rule looks for, is left by a pass. -/
theorem omits_pass (t : Text) : t.pass.Omits Excluded.byPass := by
  rw [pass_eq_foldl]
  exact (Omits.nothing t).foldl_apply Rule.table

/-! ## Texts in which no rule finds anything -/

/-- The text has nothing that a rule looks for. -/
structure Plain (t : Text) : Prop where
  omits : t.Omits Excluded.byPass
  not_degenerate : ¬ t.Degenerate

theorem apply_suffix_eq_self {p q t : Text} (h : ¬ p <:+ t) : (Rule.suffix p q).apply t = t := by
  simp only [Rule.apply]
  exact if_neg fun hp => h (List.isSuffixOf_iff_suffix.1 hp)

theorem Plain.isCanonical {t : Text} (h : t.Plain) : t.IsCanonical := by
  intro r hr
  have hsplit : Rule.table =
      [.suffix ['P', '4'] ['C'], .suffix ['A', '3'] ['O'], .suffix ['Y', '3'] ['T']] ++
        Rule.table.drop 3 := rfl
  rw [hsplit, List.mem_append] at hr
  rcases hr with hr | hr
  · have hdeg := h.not_degenerate
    unfold Degenerate at hdeg
    push Not at hdeg
    simp only [List.mem_cons, List.not_mem_nil, or_false] at hr
    rcases hr with rfl | rfl | rfl
    · exact apply_suffix_eq_self hdeg.1
    · exact apply_suffix_eq_self hdeg.2.1
    · exact apply_suffix_eq_self hdeg.2.2
  · exact h.omits.apply_eq_self (Excluded.bars_byPass r hr)

theorem pass_of_isCanonical {t : Text} (h : t.IsCanonical) : t.pass = t := by
  rw [pass, Rule.applyInTurn_eq_self h]

/-! ## Degenerate seeds -/

/-- The rules for degenerate seeds, in turn. -/
def collapse (t : Text) : Text := (Rule.table.take 3).foldl (fun u r => r.apply u) t

theorem pass_eq_foldl_collapse (t : Text) :
    t.pass = (Rule.table.drop 3).foldl (fun u r => r.apply u) t.collapse := by
  rw [pass_eq_foldl, collapse, ← List.foldl_append, List.take_append_drop]

/-- The letters of fixed seeds stay at the end of a text. -/
theorem endsIn_foldl (rules : List Rule) (h : ∀ r ∈ rules, r ∈ Rule.table) {t : Text}
    (ht : t.EndsIn Alphabet.fixedSeeds) :
    (rules.foldl (fun u r => r.apply u) t).EndsIn Alphabet.fixedSeeds := by
  have hkeep : ∀ r ∈ Rule.table, r.keepsEnd Alphabet.fixedSeeds = true := by decide
  induction rules generalizing t with
  | nil => exact ht
  | cons r rules ih =>
    refine ih (fun s hs => h s (by simp [hs])) ?_
    exact Rule.endsIn_apply (Alphabet.forall_mem_of_all (by decide)) ht (hkeep r (h r (by simp)))

theorem apply_suffix_of_suffix {p q t : Text} (h : p <:+ t) :
    ∃ s, (Rule.suffix p q).apply t = s ++ q := by
  simp only [Rule.apply]
  exact ⟨_, if_pos (List.isSuffixOf_iff_suffix.2 h)⟩

private theorem endsIn_concat {c : Char} (hc : c ∈ Alphabet.fixedSeeds) (s : Text) :
    EndsIn Alphabet.fixedSeeds (s ++ [c]) :=
  ⟨c, hc, by simp⟩

/-- A degenerate seed gives way to a letter, and any other text is kept. -/
theorem collapse_cases (t : Text) :
    (t.Degenerate ∧ t.collapse.EndsIn Alphabet.fixedSeeds) ∨
      (¬ t.Degenerate ∧ t.collapse = t) := by
  have hcollapse : t.collapse = (Rule.suffix ['Y', '3'] ['T']).apply
      ((Rule.suffix ['A', '3'] ['O']).apply ((Rule.suffix ['P', '4'] ['C']).apply t)) := rfl
  by_cases hP : ['P', '4'] <:+ t
  · refine .inl ⟨.inl hP, ?_⟩
    obtain ⟨s, hs⟩ := apply_suffix_of_suffix (q := ['C']) hP
    rw [hcollapse, hs]
    exact endsIn_foldl [.suffix ['A', '3'] ['O'], .suffix ['Y', '3'] ['T']]
      (by decide) (endsIn_concat (by decide) s)
  · rw [hcollapse, apply_suffix_eq_self hP]
    by_cases hA : ['A', '3'] <:+ t
    · refine .inl ⟨.inr (.inl hA), ?_⟩
      obtain ⟨s, hs⟩ := apply_suffix_of_suffix (q := ['O']) hA
      rw [hs]
      exact endsIn_foldl [.suffix ['Y', '3'] ['T']] (by decide)
        (endsIn_concat (by decide) s)
    · rw [apply_suffix_eq_self hA]
      by_cases hY : ['Y', '3'] <:+ t
      · refine .inl ⟨.inr (.inr hY), ?_⟩
        obtain ⟨s, hs⟩ := apply_suffix_of_suffix (q := ['T']) hY
        rw [hs]
        exact endsIn_concat (by decide) s
      · refine .inr ⟨?_, apply_suffix_eq_self hY⟩
        rintro (h | h | h)
        · exact hP h
        · exact hA h
        · exact hY h

theorem not_degenerate_collapse (t : Text) : ¬ t.collapse.Degenerate := by
  rcases collapse_cases t with ⟨_, hend⟩ | ⟨hdeg, heq⟩
  · exact hend.not_degenerate
  · rwa [heq]

/-- Once a degenerate seed has been collapsed, none comes up any more. -/
theorem Degenerate.plain_pass {t : Text} (h : t.Degenerate) : t.pass.Plain := by
  refine ⟨omits_pass t, ?_⟩
  rcases collapse_cases t with ⟨_, hend⟩ | ⟨hdeg, _⟩
  · rw [pass_eq_foldl_collapse]
    exact (endsIn_foldl _ (fun r hr => List.mem_of_mem_drop hr) hend).not_degenerate
  · exact absurd h hdeg

/-- Two passes lead to a text in which no rule finds anything. -/
theorem plain_pass_pass (t : Text) : t.pass.pass.Plain := by
  by_cases hdeg : t.pass.Degenerate
  · exact hdeg.plain_pass
  · have hplain : t.pass.Plain := ⟨omits_pass t, hdeg⟩
    rwa [pass_of_isCanonical hplain.isCanonical]

end Text

/-! ## Passes over notations -/

namespace Rule

/-- Single occurrences of what some of the rules look for are replaced, one after another. -/
abbrev Rewrites (rules : List Rule) : Text → Text → Prop :=
  Relation.ReflTransGen fun t u => ∃ r ∈ rules, r.Replaces t u

/-- Applying rules in turn replaces single occurrences. -/
theorem rewrites_foldl {rules within : List Rule} (htable : ∀ r ∈ within, r ∈ table)
    (hrules : ∀ r ∈ rules, r ∈ within) (t : Text) :
    Rewrites within t (rules.foldl (fun u r => r.apply u) t) := by
  induction rules generalizing t with
  | nil => exact .refl
  | cons r rules ih =>
    have hr := hrules r List.mem_cons_self
    have hsteps := steps_apply (hasPattern_of_mem_table (htable r hr)) t
    have hfirst : Rewrites within t (r.apply t) :=
      Relation.ReflTransGen.mono (fun _ _ hstep => ⟨r, hr, hstep⟩) _ _ hsteps
    exact hfirst.trans (ih (fun s hs => hrules s (List.mem_cons_of_mem r hs)) (r.apply t))

end Rule

theorem Text.rewrites_pass (t : Text) : Rule.Rewrites Rule.table t t.pass := by
  rw [pass_eq_foldl]
  exact Rule.rewrites_foldl (fun _ => id) (fun _ => id) t

/-- Rules other than those for degenerate seeds agree wherever they are applied. -/
theorem Agrees.of_rewrites {t u : Text} (h : IsNotation t)
    (hrewrites : Rule.Rewrites (Rule.table.drop 3) t u) : Agrees t u := by
  have hsuffix : ∀ r ∈ Rule.table.drop 3, ∀ p q, r ≠ .suffix p q := by
    rintro r hr p q rfl
    simp [Rule.table] at hr
  induction hrewrites with
  | refl => exact .refl h
  | tail _ hlast ih =>
    obtain ⟨r, hr, hstep⟩ := hlast
    exact ih.trans (.of_replaces (List.mem_of_mem_drop hr) (hsuffix r hr) hstep ih.isNotation)

namespace IsNotation

variable {t : Text}

/-- The rules keep the grammar and the canonical form. -/
theorem of_rewrites {u : Text} (h : IsNotation t) (hrewrites : Rule.Rewrites Rule.table t u) :
    IsNotation u ∧ u.canonical = t.canonical := by
  induction hrewrites with
  | refl => exact ⟨h, rfl⟩
  | tail _ hlast ih =>
    obtain ⟨r, hr, hstep⟩ := hlast
    obtain ⟨hu, heq⟩ := ih.1.of_replaces hr hstep
    exact ⟨hu, heq.trans ih.2⟩

/-- One pass over a notation leaves nothing that a rule looks for. -/
theorem plain_pass (h : IsNotation t) : t.pass.Plain := by
  refine ⟨Text.omits_pass t, fun hdeg => ?_⟩
  have hfirst : Rule.Rewrites Rule.table t t.collapse :=
    Rule.rewrites_foldl (fun _ => id) (fun _ => List.mem_of_mem_take) t
  have hcollapse : IsNotation t.collapse := (h.of_rewrites hfirst).1
  have hrest : Rule.Rewrites (Rule.table.drop 3) t.collapse _ :=
    Rule.rewrites_foldl (fun _ => List.mem_of_mem_drop) (fun _ => id) t.collapse
  rw [Text.pass_eq_foldl_collapse] at hdeg
  exact t.not_degenerate_collapse ((Agrees.of_rewrites hcollapse hrest).degenerate hdeg)

end IsNotation

/-! ## Reduction -/

namespace Text

/-- The rules that fire in a pass. -/
@[irreducible] def fired (t : Text) : List Rule := (Rule.applyInTurn Rule.table t).2

theorem fired_of_isCanonical {t : Text} (h : t.IsCanonical) : t.fired = [] := by
  rw [fired, Rule.applyInTurn_eq_self h]

theorem reduceWithin_succ (n : Nat) (t : Text) :
    reduceWithin (n + 1) t =
      if t.pass = t then (t.pass, t.fired)
      else ((reduceWithin n t.pass).1, t.fired ++ (reduceWithin n t.pass).2) := by
  rw [reduceWithin, pass, fired]

theorem reduceWithin_zero (t : Text) : reduceWithin 0 t = (t, []) := by
  rw [reduceWithin]

theorem reduceWithin_of_isCanonical {t : Text} (h : t.IsCanonical) (n : Nat) :
    reduceWithin n t = (t, []) := by
  cases n with
  | zero => rfl
  | succ n => rw [reduceWithin_succ, pass_of_isCanonical h, if_pos rfl, fired_of_isCanonical h]

/-- Two passes are made of any larger number of them. -/
theorem reduceWithin_add_two (n : Nat) (t : Text) :
    reduceWithin (n + 2) t = reduceWithin 2 t := by
  have hstop := reduceWithin_of_isCanonical t.plain_pass_pass.isCanonical
  have hsecond : reduceWithin (n + 1) t.pass = reduceWithin 1 t.pass := by
    rw [reduceWithin_succ, reduceWithin_succ, hstop, hstop]
  rw [reduceWithin_succ (n + 1) t, reduceWithin_succ 1 t, hsecond]

theorem reduceWithin_two_fst (t : Text) : (reduceWithin 2 t).1 = t.pass.pass := by
  rw [reduceWithin_succ 1 t, reduceWithin_succ 0 t.pass, reduceWithin_zero]
  by_cases h : t.pass = t
  · rw [if_pos h, h, h]
  · rw [if_neg h]
    by_cases h' : t.pass.pass = t.pass
    · rw [if_pos h']
    · rw [if_neg h']

theorem reduce_eq (t : Text) :
    t.reduce = ⟨t, (reduceWithin 2 t).1, (reduceWithin 2 t).2⟩ := by
  rw [reduce, show maxPasses = 62 + 2 from rfl, reduceWithin_add_two]

theorem output_reduce (t : Text) : t.reduce.output = t.pass.pass := by
  simp only [reduce_eq, reduceWithin_two_fst]

/-- Reduction replaces single occurrences of what the rules look for. -/
theorem rewrites_reduce (t : Text) : Rule.Rewrites Rule.table t t.reduce.output := by
  rw [output_reduce]
  exact t.rewrites_pass.trans t.pass.rewrites_pass

theorem plain_reduce (t : Text) : t.reduce.output.Plain := by
  rw [output_reduce]
  exact t.plain_pass_pass

theorem reduce_of_isCanonical {t : Text} (h : t.IsCanonical) : t.reduce = ⟨t, t, []⟩ := by
  rw [reduce_eq, reduceWithin_of_isCanonical h]

/-- Once a pass leaves a text as it is, all further passes do. -/
private theorem iterate_pass_stable {t : Text} {j : Nat} (h : (pass^[j] t).IsCanonical) {k : Nat}
    (hk : j ≤ k) : pass^[k + 1] t = pass^[k] t := by
  obtain ⟨i, rfl⟩ := Nat.exists_eq_add_of_le' hk
  have hfix : Function.IsFixedPt pass (pass^[i + j] t) := by
    rw [Function.iterate_add_apply, Function.iterate_fixed (pass_of_isCanonical h)]
    exact pass_of_isCanonical h
  rw [Function.iterate_succ_apply', hfix]

/--
Reduction of any text ends, with two passes over it, in a text that no rule changes:
reducing it once more changes nothing and fires no rule, and a larger bound on the
number of passes would lead to the same text by the same rules.  At most two passes
change a text, and at most one changes a notation.
-/
theorem reduce_reaches_canonical (t : Text) :
    t.reduce.output = t.pass.pass ∧ t.reduce.output.IsCanonical ∧
      t.reduce.output.reduce = ⟨t.reduce.output, t.reduce.output, []⟩ ∧
      (∀ n, maxPasses ≤ n → reduceWithin n t = reduceWithin maxPasses t) ∧
      (∀ k, 2 ≤ k → pass^[k + 1] t = pass^[k] t) ∧
      (t.validate = .ok () → ∀ k, 1 ≤ k → pass^[k + 1] t = pass^[k] t) := by
  have hcanonical := t.plain_reduce.isCanonical
  refine ⟨t.output_reduce, hcanonical, reduce_of_isCanonical hcanonical, fun n hn => ?_,
    fun k hk => ?_, fun hvalid k hk => ?_⟩
  · have hsplit : 2 ≤ n := le_trans (by decide) hn
    obtain ⟨i, rfl⟩ := Nat.exists_eq_add_of_le' hsplit
    exact (reduceWithin_add_two i t).trans (reduceWithin_add_two 62 t).symm
  · exact iterate_pass_stable (j := 2) t.plain_pass_pass.isCanonical hk
  · have hplain := (validate_eq_ok_iff_isNotation.1 hvalid).plain_pass
    exact iterate_pass_stable (j := 1) hplain.isCanonical hk

/-- Two passes are needed for `Pdd4`, which is no notation, and one for `aY3`, which is one. -/
theorem reduce_reaches_canonical_two_passes :
    pass ['P', 'd', 'd', '4'] = ['P', '4'] ∧ pass ['P', '4'] = ['C'] ∧
      pass^[2 + 1] ['P', 'd', 'd', '4'] = pass^[2] ['P', 'd', 'd', '4'] ∧
      validate ['a', 'Y', '3'] = .ok () ∧ pass ['a', 'Y', '3'] = ['O'] ∧
      pass^[1 + 1] ['a', 'Y', '3'] = pass^[1] ['a', 'Y', '3'] := by
  have hvalid : validate ['a', 'Y', '3'] = .ok () := by decide
  have hglued : pass ['P', 'd', 'd', '4'] = ['P', '4'] := by rw [pass]; decide
  have hcollapsed : pass ['P', '4'] = ['C'] := by rw [pass]; decide
  have honce : pass ['a', 'Y', '3'] = ['O'] := by rw [pass]; decide
  obtain ⟨-, -, -, -, htwo, -⟩ := reduce_reaches_canonical ['P', 'd', 'd', '4']
  have htwo := htwo 2 le_rfl
  obtain ⟨-, -, -, -, -, hone⟩ := reduce_reaches_canonical ['a', 'Y', '3']
  have hone := hone hvalid 1 le_rfl
  exact ⟨hglued, hcollapsed, htwo, hvalid, honce, hone⟩

end Text

end Polyhedra
