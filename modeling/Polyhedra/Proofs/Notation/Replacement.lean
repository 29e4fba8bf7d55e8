import Polyhedra.Notation.Reduction
import Polyhedra.Proofs.Notation.Grammar
import Mathlib.Data.List.Infix
import Mathlib.Logic.Relation

/-!
# What a rule leaves behind

A rule of reduction goes over a whole text.  This module says what cannot be
found in the outcome.  `Excluded` lists letters and pairs of neighbours that a
text is known not to have; `Excluded.after` carries such a list across one rule
by looking at the rule alone, and `Omits.apply` says that it does so rightly.
The lists for a whole pass are then computed, not proved.

Replacement from left to right is described by the relation `Replaced`, which
keeps the two ways to go on: an occurrence is exchanged, or one character is
passed over where no occurrence begins.

## Main results

* `replaced_replaceFrom` — replacement follows `Replaced`.
* `steps_apply` — a rule is applied by replacing single occurrences.
* `Omits.apply` — what is excluded before a rule and what the rule removes is
  excluded after it.
* `EndsIn.apply` — a text that ends in the letter of a fixed seed goes on doing
  so.
-/

namespace Polyhedra

/-! ## Replacement as a relation -/

namespace Text

/-- `u` is `t` with the occurrences of `pattern` replaced from left to right. -/
inductive Replaced (pattern replacement : Text) : Text → Text → Prop where
  | nil : Replaced pattern replacement [] []
  | hit {t u : Text} (rest : Replaced pattern replacement t u) :
    Replaced pattern replacement (pattern ++ t) (replacement ++ u)
  | miss {c : Char} {t u : Text} (absent : ¬ pattern <+: c :: t)
      (rest : Replaced pattern replacement t u) :
    Replaced pattern replacement (c :: t) (c :: u)

theorem replaceFrom_eq_drop (pattern replacement : Text) (skip : Nat) (t : Text) :
    replaceFrom pattern replacement skip t =
      replaceFrom pattern replacement 0 (t.drop skip) := by
  induction t generalizing skip with
  | nil => cases skip <;> simp [replaceFrom]
  | cons c t ih =>
    cases skip with
    | zero => rfl
    | succ skip => simpa [replaceFrom] using ih skip

theorem replaced_replaceFrom {pattern replacement : Text} (h : pattern ≠ []) (t : Text) :
    Replaced pattern replacement t (replaceFrom pattern replacement 0 t) := by
  induction hn : t.length using Nat.strongRecOn generalizing t with
  | _ n ih =>
    cases t with
    | nil => exact .nil
    | cons c t =>
      rw [replaceFrom]
      split
      · next hpre =>
        obtain ⟨rest, hrest⟩ := List.isPrefixOf_iff_prefix.1 hpre
        have hpos := List.length_pos_iff.2 h
        have hlen := congrArg List.length hrest
        simp only [List.length_append, List.length_cons] at hlen hn
        have hdrop : t.drop (pattern.length - 1) = rest := by
          have h1 := congrArg (List.drop pattern.length) hrest
          rw [List.drop_left] at h1
          rw [h1, show pattern.length = pattern.length - 1 + 1 by omega, List.drop_succ_cons]
          rfl
        rw [replaceFrom_eq_drop, hdrop, ← hrest]
        exact .hit (ih rest.length (by omega) rest rfl)
      · next hpre =>
        refine .miss (fun hp => hpre (List.isPrefixOf_iff_prefix.2 hp)) ?_
        exact ih t.length (by simp [← hn]) t rfl

namespace Replaced

variable {pattern replacement t u : Text}

theorem eq_nil (hp : pattern ≠ []) (h : Replaced pattern replacement [] u) : u = [] := by
  generalize hx : ([] : Text) = x at h
  cases h with
  | nil => rfl
  | hit rest => exact absurd (List.append_eq_nil_iff.1 hx.symm).1 hp
  | miss absent rest => simp at hx

/-- Every letter of the outcome was there before or comes with a replacement. -/
theorem mem (h : Replaced pattern replacement t u) {c : Char} (hc : c ∈ u) :
    c ∈ t ∨ c ∈ replacement := by
  induction h with
  | nil => exact .inl hc
  | hit rest ih =>
    rcases List.mem_append.1 hc with hc | hc
    · exact .inr hc
    · exact (ih hc).imp_left fun h => List.mem_append_right _ h
  | miss absent rest ih =>
    rcases List.mem_cons.1 hc with rfl | hc
    · exact .inl (by simp)
    · exact (ih hc).imp_left fun h => List.mem_cons_of_mem _ h

/-- A pattern of one letter is gone, unless the replacement has it. -/
theorem notMem {x : Char} (h : Replaced [x] replacement t u) (hx : x ∉ replacement) :
    x ∉ u := by
  induction h with
  | nil => simp
  | hit rest ih => simp [hx, ih]
  | @miss c t u absent rest ih =>
    have : x ≠ c := fun heq => absurd (by simp [heq]) absent
    simp [this, ih]

theorem eq_self (h : Replaced pattern replacement t u) (absent : ¬ pattern <:+: t) : u = t := by
  induction h with
  | nil => rfl
  | hit rest => exact absurd (List.infix_append [] pattern _) (by simpa using absent)
  | miss _ rest ih => rw [ih fun hin => absent (hin.trans (List.infix_cons (List.infix_refl _)))]

/-- The outcome begins as the text does, or else with the replacement. -/
theorem head? {z : Char} {r : Text} (h : Replaced pattern (z :: r) t u) :
    u.head? = t.head? ∨ (pattern <+: t ∧ u.head? = some z) := by
  cases h with
  | nil => exact .inl rfl
  | hit rest => exact .inr ⟨List.prefix_append _ _, rfl⟩
  | miss absent rest => exact .inl rfl

end Replaced

/-! ## Neighbours -/

theorem pair_infix_cons {p q c : Char} {t : Text} :
    [p, q] <:+: c :: t ↔ (p = c ∧ t.head? = some q) ∨ [p, q] <:+: t := by
  rw [List.infix_cons_iff, List.cons_prefix_cons]
  refine or_congr_left (and_congr_right fun _ => ?_)
  cases t with
  | nil => simp
  | cons d t => simp [eq_comm]

/-- Neighbours in a joined text are neighbours in one part or meet at the joint. -/
theorem pair_infix_append {p q : Char} {s t : Text} :
    [p, q] <:+: s ++ t ↔
      [p, q] <:+: s ∨ [p, q] <:+: t ∨ (s.getLast? = some p ∧ t.head? = some q) := by
  induction s with
  | nil => simp
  | cons c s ih =>
    rw [List.cons_append, pair_infix_cons, ih, pair_infix_cons]
    cases s with
    | nil =>
      have : ¬ [p, q] <:+: ([] : Text) := by simp
      simp only [List.nil_append, List.head?_nil, List.getLast?_singleton, Option.some.injEq,
        this, eq_comm (a := p), reduceCtorEq, and_false, false_or]
      tauto
    | cons d s =>
      simp only [List.cons_append, List.head?_cons, List.getLast?_cons_cons]
      tauto

namespace Replaced

variable {x y z p q : Char} {r t u : Text}

/-- Neighbours that come from a part of a text come from the text. -/
private theorem pair_mono {s : Text} (hin : ∀ {a b : Char}, [a, b] <:+: t → [a, b] <:+: s)
    (h : ([p, q] <:+: t ∧ (p, q) ≠ (x, y)) ∨ [p, q] <:+: z :: r ∨ (q = z ∧ [p, x] <:+: t) ∨
      ((z :: r).getLast? = some p ∧ (q = z ∨ [y, q] <:+: t))) :
    ([p, q] <:+: s ∧ (p, q) ≠ (x, y)) ∨ [p, q] <:+: z :: r ∨ (q = z ∧ [p, x] <:+: s) ∨
      ((z :: r).getLast? = some p ∧ (q = z ∨ [y, q] <:+: s)) := by
  rcases h with h | h | h | h
  · exact .inl ⟨hin h.1, h.2⟩
  · exact .inr (.inl h)
  · exact .inr (.inr (.inl ⟨h.1, hin h.2⟩))
  · exact .inr (.inr (.inr ⟨h.1, h.2.imp_right hin⟩))

/-- Where two neighbours of the outcome can come from. -/
theorem pair (h : Replaced [x, y] (z :: r) t u) (hpq : [p, q] <:+: u) :
    ([p, q] <:+: t ∧ (p, q) ≠ (x, y)) ∨ [p, q] <:+: z :: r ∨ (q = z ∧ [p, x] <:+: t) ∨
      ((z :: r).getLast? = some p ∧ (q = z ∨ [y, q] <:+: t)) := by
  induction h with
  | nil => simp at hpq
  | @hit t u rest ih =>
    rcases pair_infix_append.1 hpq with hpq | hpq | ⟨hlast, hfirst⟩
    · exact .inr (.inl hpq)
    · exact pair_mono (fun h => h.trans (List.suffix_append _ _).isInfix) (ih hpq)
    · refine .inr (.inr (.inr ⟨hlast, ?_⟩))
      rcases rest.head? with hhead | ⟨_, hhead⟩
      · exact .inr (pair_infix_append.2 (.inr (.inr ⟨rfl, hhead ▸ hfirst⟩)))
      · exact .inl (by simpa [hhead] using hfirst.symm)
  | @miss c t u absent rest ih =>
    rcases pair_infix_cons.1 hpq with ⟨rfl, hfirst⟩ | hpq
    · rcases rest.head? with hhead | ⟨hpre, hhead⟩
      · refine .inl ⟨pair_infix_cons.2 (.inl ⟨rfl, hhead ▸ hfirst⟩), ?_⟩
        rintro ⟨rfl, rfl⟩
        obtain ⟨w, rfl⟩ : ∃ w, t = y :: w := by
          rw [hhead] at hfirst
          exact List.head?_eq_some_iff.1 hfirst
        exact absent (by simp)
      · have hx : t.head? = some x := by
          obtain ⟨w, rfl⟩ := hpre
          rfl
        refine .inr (.inr (.inl ⟨?_, pair_infix_cons.2 (.inl ⟨rfl, hx⟩)⟩))
        simpa [hhead] using hfirst.symm
    · exact pair_mono (fun h => h.trans (List.suffix_cons _ _).isInfix) (ih hpq)

/-- When pairs of one letter are struck out, no such pair is left or comes up. -/
theorem not_pair_of_erase (h : Replaced [x, x] [] t u) : ¬ [x, x] <:+: u := by
  -- a pair could only come up behind an `x` that the text has there as well
  suffices hboth : ¬ [x, x] <:+: u ∧ (u.head? = some x → t.head? = some x) from hboth.1
  induction h with
  | nil => simp
  | hit rest ih => exact ⟨ih.1, fun _ => rfl⟩
  | @miss c t u absent rest ih =>
    refine ⟨fun hpair => ?_, id⟩
    rcases pair_infix_cons.1 hpair with ⟨rfl, hfirst⟩ | hpair
    · obtain ⟨w, rfl⟩ := List.head?_eq_some_iff.1 (ih.2 hfirst)
      exact absent (by simp)
    · exact ih.1 hpair

end Replaced

end Text

/-! ## Single occurrences -/

namespace Rule

theorem Replaces.append_left {r : Rule} {t u : Text} (h : r.Replaces t u) (s : Text) :
    r.Replaces (s ++ t) (s ++ u) := by
  cases h with
  | literal pattern replacement before after =>
    simpa using Replaces.literal pattern replacement (s ++ before) after
  | suffix pattern replacement before =>
    simpa using Replaces.suffix pattern replacement (s ++ before)
  | argument letter left right before digits after all_digits maximal =>
    simpa using Replaces.argument letter left right (s ++ before) digits after all_digits maximal

/-- One occurrence after another is replaced. -/
abbrev Steps (r : Rule) : Text → Text → Prop := Relation.ReflTransGen r.Replaces

theorem Steps.append_left {r : Rule} {t u : Text} (h : r.Steps t u) (s : Text) :
    r.Steps (s ++ t) (s ++ u) := by
  induction h with
  | refl => exact .refl
  | tail _ hlast ih => exact ih.tail (hlast.append_left s)

/-- The rule looks for something. -/
def HasPattern : Rule → Prop
  | literal pattern _ | suffix pattern _ => pattern ≠ []
  | argument _ _ _ => True

private theorem steps_of_replaced {pattern replacement t u : Text}
    (h : Text.Replaced pattern replacement t u) : (literal pattern replacement).Steps t u := by
  induction h with
  | nil => exact .refl
  | @hit t u rest ih =>
    have hfirst := Replaces.literal pattern replacement [] t
    exact .head hfirst (ih.append_left replacement)
  | @miss c t u absent rest ih => exact ih.append_left [c]

private theorem steps_flatMap (letter : Char) (left right : Text) {ls : List Lexeme}
    (h : ∀ l ∈ ls, l.Proper) :
    (argument letter left right).Steps (Lexeme.join ls) (ls.flatMap fun l =>
      if l.symbol = letter then left ++ l.digits ++ right else l.text) := by
  induction ls with
  | nil => exact .refl
  | cons l ls ih =>
    have hls : ∀ l ∈ ls, l.Proper := fun l hl => h l (by simp [hl])
    have hrest := ih hls
    rw [List.flatMap_cons, Lexeme.join_cons]
    split
    · next hletter =>
      have hfirst := Replaces.argument letter left right [] l.digits (Lexeme.join ls)
        (h l (by simp)).digits (Lexeme.noDigitFirst_join hls)
      rw [hletter]
      refine .head (by simpa using hfirst) ?_
      simpa using hrest.append_left (left ++ l.digits ++ right)
    · simpa [Lexeme.text] using hrest.append_left l.text

/-- A rule is applied by replacing single occurrences, one after another. -/
theorem steps_apply {r : Rule} (h : r.HasPattern) (t : Text) : r.Steps t (r.apply t) := by
  cases r with
  | literal pattern replacement => exact steps_of_replaced (Text.replaced_replaceFrom h t)
  | suffix pattern replacement =>
    simp only [apply]
    split
    · next hsuf =>
      obtain ⟨s, rfl⟩ := List.isSuffixOf_iff_suffix.1 hsuf
      refine .single ?_
      simpa using Replaces.suffix pattern replacement s
    · exact .refl
  | argument letter left right =>
    have hrest := steps_flatMap letter left right t.proper_of_mem_lex
    have happly := hrest.append_left t.lex.1
    rwa [t.lex_join] at happly

end Rule

/-! ## Excluded letters and pairs -/

/-- Letters and pairs of neighbours that a text does not have. -/
structure Excluded where
  letters : List Char
  pairs : List (Char × Char)
  deriving DecidableEq

/-- The text has none of the letters and none of the pairs. -/
structure Text.Omits (t : Text) (e : Excluded) : Prop where
  letter : ∀ c ∈ e.letters, c ∉ t
  pair : ∀ p q, (p, q) ∈ e.pairs → ¬ [p, q] <:+: t

namespace Excluded

/-- The letters that are still excluded when some text has been put in. -/
def lettersWithout (letters : List Char) (inserted : Text) : List Char :=
  letters.filter (· ∉ inserted)

/--
Whether a pair stays excluded when `x y` gives way to `z` and what follows it:
it must not be part of the replacement, nor come up at either end of it.
-/
def staysAbsent (pairs : List (Char × Char)) (x y z : Char) (r : Text) (p : Char × Char) : Bool :=
  !decide ([p.1, p.2] <:+: z :: r) && decide (p.2 = z → (p.1, x) ∈ pairs) &&
    decide ((z :: r).getLast? = some p.1 → p.2 ≠ z ∧ (y, p.2) ∈ pairs)

/-- What is excluded after a rule, given what is excluded before it. -/
def after (e : Excluded) : Rule → Excluded
  | .literal [x] r => ⟨lettersWithout (x :: e.letters) r, []⟩
  | .literal [x, y] [] => ⟨e.letters, if x = y then [(x, x)] else []⟩
  | .literal [x, y] (z :: r) =>
    ⟨lettersWithout e.letters (z :: r),
      if x = y then [] else ((x, y) :: e.pairs).filter (staysAbsent e.pairs x y z r)⟩
  | .literal _ _ => ⟨[], []⟩
  | .suffix _ r => ⟨lettersWithout e.letters r, []⟩
  | .argument letter before behind =>
    ⟨lettersWithout (if letter.isDigit then e.letters else letter :: e.letters)
      (before ++ behind), []⟩

/-- The rule finds nothing in a text from which this is excluded. -/
def bars (e : Excluded) : Rule → Bool
  | .literal [x] _ => e.letters.contains x
  | .literal [x, y] _ => e.pairs.contains (x, y)
  | .literal _ _ => false
  | .suffix _ _ => false
  | .argument letter _ _ => e.letters.contains letter

theorem mem_lettersWithout {letters : List Char} {inserted : Text} {c : Char} :
    c ∈ lettersWithout letters inserted ↔ c ∈ letters ∧ c ∉ inserted := by
  simp [lettersWithout]

end Excluded

namespace Rule

/-- What comes out of a suffix rule was there or is part of its replacement. -/
theorem mem_apply_suffix {pattern r t : Text} {c : Char}
    (hc : c ∈ (suffix pattern r).apply t) : c ∈ t ∨ c ∈ r := by
  simp only [apply] at hc
  split at hc
  · exact (List.mem_append.1 hc).imp_left List.mem_of_mem_take
  · exact .inl hc

theorem apply_argument (letter : Char) (before behind t : Text) :
    (argument letter before behind).apply t = t.lex.1 ++ t.lex.2.flatMap fun l =>
      if l.symbol = letter then before ++ l.digits ++ behind else l.text := rfl

theorem mem_of_mem_lexeme {t : Text} {l : Lexeme} (hl : l ∈ t.lex.2) {c : Char}
    (hc : c ∈ l.text) : c ∈ t := by
  rw [← t.lex_join]
  exact List.mem_append_right _ (List.mem_flatMap.2 ⟨l, hl, hc⟩)

theorem mem_of_mem_leading {t : Text} {c : Char} (hc : c ∈ t.lex.1) : c ∈ t := by
  rw [← t.lex_join]
  exact List.mem_append_left _ hc

theorem mem_apply_argument {letter c : Char} {before behind t : Text}
    (hc : c ∈ (argument letter before behind).apply t) : c ∈ t ∨ c ∈ before ++ behind := by
  rw [apply_argument, List.mem_append, List.mem_flatMap] at hc
  rcases hc with hc | ⟨l, hl, hc⟩
  · exact .inl (mem_of_mem_leading hc)
  · split at hc
    · rcases List.mem_append.1 hc with hc | hc
      · rcases List.mem_append.1 hc with hc | hc
        · exact .inr (List.mem_append_left _ hc)
        · exact .inl (mem_of_mem_lexeme hl (List.mem_cons_of_mem _ hc))
      · exact .inr (List.mem_append_right _ hc)
    · exact .inl (mem_of_mem_lexeme hl hc)

/-- The letter of an argument rule is gone, unless the rule itself puts it back. -/
theorem notMem_apply_argument {letter : Char} {before behind t : Text}
    (hdigit : letter.isDigit = false) (hnot : letter ∉ before ++ behind) :
    letter ∉ (argument letter before behind).apply t := by
  have digits : ∀ ds : Text, ds.AllDigits → letter ∉ ds := by
    intro ds hds hmem
    simp [hds letter hmem] at hdigit
  rw [apply_argument, List.mem_append, List.mem_flatMap]
  rintro (hc | ⟨l, hl, hc⟩)
  · exact digits _ t.allDigits_lex hc
  · have hds := digits l.digits (t.proper_of_mem_lex l hl).digits
    split at hc
    · simp_all
    · next hne => exact (List.mem_cons.1 hc).elim (fun h => hne h.symm) hds

end Rule

namespace Text.Omits

variable {t : Text} {e : Excluded}

theorem nothing (t : Text) : t.Omits ⟨[], []⟩ := ⟨by simp, by simp⟩

/-- Letters stay excluded when none of those that come in is one of them. -/
private theorem letters_of_mem {u inserted : Text} {letters : List Char}
    (h : ∀ c ∈ letters, c ∉ t) (hu : ∀ c ∈ u, c ∈ t ∨ c ∈ inserted) :
    ∀ c ∈ Excluded.lettersWithout letters inserted, c ∉ u := by
  intro c hc hcu
  obtain ⟨hmem, hnot⟩ := Excluded.mem_lettersWithout.1 hc
  exact (hu c hcu).elim (h c hmem) hnot

private theorem apply_letter (h : t.Omits e) (x : Char) (r : Text) :
    ((Rule.literal [x] r).apply t).Omits (e.after (.literal [x] r)) := by
  have hrep : Replaced [x] r t ((Rule.literal [x] r).apply t) := replaced_replaceFrom (by simp) t
  refine ⟨fun c hc => ?_, by simp [Excluded.after]⟩
  obtain ⟨hmem, hnot⟩ := Excluded.mem_lettersWithout.1 hc
  rcases List.mem_cons.1 hmem with rfl | hmem
  · exact hrep.notMem hnot
  · exact fun hcu => (hrep.mem hcu).elim (h.letter c hmem) hnot

private theorem apply_erase (h : t.Omits e) (x y : Char) :
    ((Rule.literal [x, y] []).apply t).Omits (e.after (.literal [x, y] [])) := by
  have hrep : Replaced [x, y] [] t ((Rule.literal [x, y] []).apply t) :=
    replaced_replaceFrom (by simp) t
  refine ⟨fun c hc hcu => ?_, fun p q hpq => ?_⟩
  · exact (hrep.mem hcu).elim (h.letter c hc) (by simp)
  · simp only [Excluded.after] at hpq
    split at hpq
    · next hxy =>
      subst hxy
      obtain ⟨rfl, rfl⟩ : p = x ∧ q = x := by simpa using hpq
      exact hrep.not_pair_of_erase
    · simp at hpq

private theorem apply_pair (h : t.Omits e) (x y z : Char) (r : Text) :
    ((Rule.literal [x, y] (z :: r)).apply t).Omits (e.after (.literal [x, y] (z :: r))) := by
  have hrep : Replaced [x, y] (z :: r) t ((Rule.literal [x, y] (z :: r)).apply t) :=
    replaced_replaceFrom (by simp) t
  refine ⟨letters_of_mem h.letter fun c hc => hrep.mem hc, fun p q hpq hin => ?_⟩
  simp only [Excluded.after] at hpq
  split at hpq
  · simp at hpq
  · obtain ⟨hmem, hstay⟩ := List.mem_filter.1 hpq
    simp only [Excluded.staysAbsent, Bool.and_eq_true, Bool.not_eq_true', decide_eq_false_iff_not,
      decide_eq_true_eq] at hstay
    obtain ⟨⟨hinside, hbefore⟩, hbehind⟩ := hstay
    have hbar : ∀ {a b : Char}, (a, b) ∈ e.pairs → ¬ [a, b] <:+: t := fun {a b} => h.pair a b
    rcases hrep.pair hin with hold | hold | ⟨hq, hold⟩ | ⟨hp, hold⟩
    · exact hbar ((List.mem_cons.1 hmem).resolve_left hold.2) hold.1
    · exact hinside hold
    · exact hbar (hbefore hq) hold
    · exact hold.elim (hbehind hp).1 (hbar (hbehind hp).2)

/-- What is excluded before a rule and what the rule removes is excluded after it. -/
protected theorem apply (h : t.Omits e) (r : Rule) : (r.apply t).Omits (e.after r) := by
  match r with
  | .literal [] r => exact nothing _
  | .literal [x] r => exact h.apply_letter x r
  | .literal [x, y] [] => exact h.apply_erase x y
  | .literal [x, y] (z :: r) => exact h.apply_pair x y z r
  | .literal (_ :: _ :: _ :: _) r => exact nothing _
  | .suffix pattern r =>
    exact ⟨letters_of_mem h.letter fun c hc => Rule.mem_apply_suffix hc, by simp [Excluded.after]⟩
  | .argument letter before behind =>
    refine ⟨fun c hc => ?_, by simp [Excluded.after]⟩
    obtain ⟨hmem, hnot⟩ := Excluded.mem_lettersWithout.1 hc
    have hold : c ∈ e.letters → c ∉ (Rule.argument letter before behind).apply t :=
      fun hmem hcu => (Rule.mem_apply_argument hcu).elim (h.letter c hmem) hnot
    split at hmem
    · exact hold hmem
    · next hdigit =>
      rcases List.mem_cons.1 hmem with rfl | hmem
      · exact Rule.notMem_apply_argument (by simpa using hdigit) hnot
      · exact hold hmem

/-- Rule by rule, what is excluded from the outcome of a list of rules. -/
theorem foldl_apply (h : t.Omits e) (rules : List Rule) :
    (rules.foldl (fun u r => r.apply u) t).Omits (rules.foldl Excluded.after e) := by
  induction rules generalizing t e with
  | nil => exact h
  | cons r rules ih => exact ih (h.apply r)

/-- A rule that finds nothing leaves a text as it is. -/
theorem apply_eq_self (h : t.Omits e) {r : Rule} (hr : e.bars r = true) : r.apply t = t := by
  match r with
  | .literal [x] r =>
    have hx := h.letter x (by simpa [Excluded.bars] using hr)
    exact (replaced_replaceFrom (by simp) t).eq_self (by simpa [List.singleton_infix_iff] using hx)
  | .literal [x, y] r =>
    have hxy := h.pair x y (by simpa [Excluded.bars] using hr)
    exact (replaced_replaceFrom (by simp) t).eq_self hxy
  | .literal [] r => simp [Excluded.bars] at hr
  | .literal (_ :: _ :: _ :: _) r => simp [Excluded.bars] at hr
  | .suffix _ _ => simp [Excluded.bars] at hr
  | .argument letter before behind =>
    have hletter := h.letter letter (by simpa [Excluded.bars] using hr)
    have hkeep : ∀ l ∈ t.lex.2,
        (if l.symbol = letter then before ++ l.digits ++ behind else l.text) = l.text := by
      intro l hl
      have hsymbol : l.symbol ∈ t := Rule.mem_of_mem_lexeme hl (by simp [Lexeme.text])
      have hne : l.symbol ≠ letter := fun heq => hletter (heq ▸ hsymbol)
      exact if_neg hne
    rw [Rule.apply_argument, List.flatMap_congr hkeep]
    exact t.lex_join

end Text.Omits

/-! ## The last letter -/

/-- The text ends in one of the given letters. -/
def Text.EndsIn (letters : List Char) (t : Text) : Prop := ∃ c ∈ letters, t.getLast? = some c

namespace Text

theorem EndsIn.append {letters : List Char} {t : Text} (h : t.EndsIn letters) (s : Text) :
    EndsIn letters (s ++ t) := by
  obtain ⟨c, hc, hlast⟩ := h
  exact ⟨c, hc, by simp [List.getLast?_append, hlast]⟩

theorem endsIn_cons {letters : List Char} {c : Char} {t : Text} (ht : t ≠ []) :
    EndsIn letters (c :: t) ↔ EndsIn letters t := by
  cases t with
  | nil => exact absurd rfl ht
  | cons d t => simp [EndsIn, List.getLast?_cons_cons]

theorem endsIn_append {letters : List Char} {s t : Text} (ht : t ≠ []) :
    EndsIn letters (s ++ t) ↔ EndsIn letters t := by
  induction s with
  | nil => rfl
  | cons c s ih => rw [List.cons_append, endsIn_cons (by simp [ht]), ih]

/-- Replacement keeps the last letter, or puts one of the same kind in its place. -/
theorem Replaced.endsIn {letters : List Char} {pattern replacement t u : Text}
    (hp : pattern ≠ []) (hend : pattern.EndsIn letters → replacement.EndsIn letters)
    (h : Replaced pattern replacement t u) (ht : t.EndsIn letters) : u.EndsIn letters := by
  induction h with
  | nil => exact ht
  | @hit t u rest ih =>
    cases t with
    | nil =>
      rw [rest.eq_nil hp, List.append_nil]
      exact hend (by simpa using ht)
    | cons c t => exact (ih ((endsIn_append (by simp)).1 ht)).append _
  | @miss c t u absent rest ih =>
    cases t with
    | nil => simpa [rest.eq_nil hp] using ht
    | cons d t => exact (ih ((endsIn_cons (by simp)).1 ht)).append [c]

theorem lex_concat {c : Char} (hc : c.isDigit = false) (t : Text) :
    (t ++ [c]).lex = (t.lex.1, t.lex.2 ++ [⟨c, []⟩]) := by
  rw [lex_append (noDigitFirst_cons.2 hc), lex_cons_of_not_isDigit hc]
  rfl

end Text

namespace Rule

/-- A rule puts nothing but one of the letters where one of them was the last. -/
def keepsEnd (letters : List Char) : Rule → Bool
  | literal pattern r | suffix pattern r =>
    pattern.getLast?.any fun c => !letters.contains c || r.getLast?.any letters.contains
  | argument letter _ _ => !letters.contains letter

private theorem endsIn_of_keepsEnd {letters : List Char} {pattern r : Text}
    (h : (pattern.getLast?.any fun c =>
      !letters.contains c || r.getLast?.any letters.contains) = true) :
    pattern ≠ [] ∧ (pattern.EndsIn letters → r.EndsIn letters) := by
  refine ⟨?_, ?_⟩
  · rintro rfl
    simp at h
  · rintro ⟨c, hc, hlast⟩
    simpa [hlast, hc, Option.any_eq_true, Text.EndsIn, and_comm] using h

theorem endsIn_apply {letters : List Char} (hletters : ∀ c ∈ letters, c.isDigit = false)
    {t : Text} (ht : t.EndsIn letters) {r : Rule} (hr : r.keepsEnd letters = true) :
    (r.apply t).EndsIn letters := by
  cases r with
  | literal pattern r =>
    obtain ⟨hne, hend⟩ := endsIn_of_keepsEnd hr
    exact (Text.replaced_replaceFrom hne t).endsIn hne hend ht
  | suffix pattern r =>
    obtain ⟨hne, hend⟩ := endsIn_of_keepsEnd hr
    simp only [apply]
    split
    · next hsuf =>
      obtain ⟨s, rfl⟩ := List.isSuffixOf_iff_suffix.1 hsuf
      exact (hend ((Text.endsIn_append hne).1 ht)).append _
    · exact ht
  | argument letter before behind =>
    obtain ⟨c, hc, hlast⟩ := ht
    obtain ⟨s, rfl⟩ := List.getLast?_eq_some_iff.1 hlast
    have hne : c ≠ letter := by
      rintro rfl
      simp [keepsEnd, hc] at hr
    rw [apply_argument, Text.lex_concat (hletters c hc)]
    exact ⟨c, hc, by simp [hne, Lexeme.text, List.getLast?_append]⟩

end Rule

end Polyhedra
