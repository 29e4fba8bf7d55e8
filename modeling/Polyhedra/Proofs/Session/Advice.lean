import Polyhedra.Proofs.Notation.Lasting
import Polyhedra.Proofs.Notation.RoundTrip
import Polyhedra.Session

/-!
# Advice

A kis with a selector below three is carried out, but there is advice about it, since no
face has so few sides.  The advice is given for the program, and its spans lie over the
canonical notation.  What the user wrote is another text: there the selector may stand
behind a truncation, and the operators around it may have been different ones.  Still the
advice is just what one expects from the notation as written (`Text.lowSelectors`), since
such a kis lasts.

A session gives the advice first, before it builds anything, and so it is the same whatever
the session has at hand.

## Main results

* `Program.map_advice` — the advice about a program, read from its notation.
* `Session.advice_prefix_warnings` — a session gives the advice first.
* `compile_lasting` — what lasts of a notation, and the advice about it.
-/

namespace Polyhedra

open Lexeme

/-! ## Selectors that no face can match -/

/-- The digits behind a kis or a truncation, if their number is smaller than any face. -/
def Lexeme.lowSelector? (l : Lexeme) : Option Text :=
  if (l.symbol = 'k' ∨ l.symbol = 't') ∧ l.digits ≠ [] ∧ l.digits.value < minKisSides then
    some l.digits
  else none

/-- The selectors of a text that no face can match, in written order. -/
def Text.lowSelectors (t : Text) : List Text := t.lex.2.filterMap Lexeme.lowSelector?

/-- Selectors are told from what lasts. -/
theorem Lexeme.lowSelector?_eq_bind (l : Lexeme) :
    l.lowSelector? = l.lasting?.bind Lexeme.lowSelector? := by
  obtain ⟨symbol, digits⟩ := l
  by_cases hkis : symbol = 'k' ∨ symbol = 't'
  · cases hkis with
    | inl hk =>
      subst hk
      rfl
    | inr ht =>
      subst ht
      simp [lasting?, lowSelector?]
  · have hnone : lowSelector? ⟨symbol, digits⟩ = none := if_neg fun h => hkis h.1
    rw [hnone, lasting?]
    split
    all_goals simp_all [lowSelector?]

theorem Text.lowSelectors_eq (t : Text) :
    t.lowSelectors = t.lasting.filterMap Lexeme.lowSelector? := by
  rw [lasting, List.filterMap_filterMap]
  exact List.filterMap_congr fun l _ => l.lowSelector?_eq_bind

/-! ## Advice about programs -/

/-- What a user reads about a selector that no face can match. -/
def adviceText (sides : Nat) : String :=
  s!"A kis selector of {sides} makes no sense, but looking anyway (faces need at least 3 sides)"

theorem render_advice (sides : Nat) (span : Span) :
    Diagnostic.render ⟨.warning, s!"A kis selector of {sides} makes no sense, but looking anyway",
      span, some "faces need at least 3 sides"⟩ = adviceText sides := by
  have hend : " makes no sense, but looking anyway" ++
      (" (" ++ ("faces need at least 3 sides" ++ ")")) =
        " makes no sense, but looking anyway (faces need at least 3 sides)" := rfl
  unfold Diagnostic.render adviceText
  generalize toString sides = number
  show "A kis selector of " ++ number ++ " makes no sense, but looking anyway" ++ " (" ++
    "faces need at least 3 sides" ++ ")" = _
  rw [String.append_assoc, String.append_assoc, String.append_assoc, hend]
  rfl

/-- The advice about a token is about the selector of its lexeme. -/
theorem Token.Covers.map_advice? {whole : Text} {l : Lexeme} {t : Token} (h : Covers whole l t) :
    (t.advice?.map fun d => (d.severity, d.render, d.span.slice whole)) =
      l.lowSelector?.map fun digits : Text =>
        (Severity.warning, adviceText digits.value, 'k' :: digits) := by
  have hsymbol := symbol_of_operation? h.operation
  have hselector := selector?_of_operation? h.operation
  have hslice := h.slice
  obtain ⟨op, span⟩ := t
  cases op with
  | kis sides =>
    have hkis : l.symbol = 'k' := hsymbol
    have hsides : sides = l.digits.number? := by
      rw [selector?, hkis] at hselector
      exact Option.some.inj hselector
    by_cases hd : l.digits = []
    · have hnone : l.lowSelector? = none := if_neg fun hlow => hlow.2.1 hd
      rw [Text.number?, if_pos hd] at hsides
      rw [hnone, hsides]
      rfl
    · rw [Text.number?, if_neg hd] at hsides
      subst hsides
      by_cases hlow : l.digits.value < minKisSides
      · have hsome : l.lowSelector? = some l.digits := if_pos ⟨.inl hkis, hd, hlow⟩
        have htext : l.text = 'k' :: l.digits := by rw [Lexeme.text, hkis]
        rw [hsome, Token.advice?]
        simp only [if_pos hlow, Option.map_some, render_advice, hslice, htext]
      · have hnone : l.lowSelector? = none := if_neg fun h => hlow h.2.2
        rw [hnone, Token.advice?]
        simp only [if_neg hlow, Option.map_none]
  | _ =>
    have hnone : l.lowSelector? = none := by
      refine if_neg fun hlow => ?_
      rw [hsymbol] at hlow
      simp [Operation.symbol] at hlow
    rw [hnone]
    rfl

/-- The advice about a program is about the selectors of its notation. -/
theorem Program.map_advice {t : Text} {p : Program} (h : parse t = .ok p) :
    (p.advice.map fun d => (d.severity, d.render, d.span.slice t)) =
      t.lowSelectors.map fun digits : Text =>
        (Severity.warning, adviceText digits.value, 'k' :: digits) := by
  obtain ⟨htext, front, last, hlaid⟩ := exists_laid h
  have hlast : [last].filterMap Lexeme.lowSelector? = [] := by
    rw [List.filterMap_cons_none, List.filterMap_nil]
    rw [lowSelector?_eq_bind, lasting?_of_seed? hlaid.spells]
    rfl
  have hselectors : t.lowSelectors = front.filterMap Lexeme.lowSelector? := by
    rw [Text.lowSelectors, ← htext, hlaid.lex_text, List.filterMap_append, hlast, List.append_nil]
  have hcovers := hlaid.covers
  rw [htext] at hcovers
  rw [hselectors, advice, List.map_filterMap, List.map_filterMap]
  -- token for token the advice is about the selector of the lexeme
  clear hselectors hlast hlaid
  generalize p.operations = ts at hcovers
  induction hcovers with
  | nil => rfl
  | @cons l t ls ts hfirst rest ih =>
    rw [List.filterMap_cons, List.filterMap_cons, hfirst.map_advice?, ih]

/-! ## Sessions -/

/-- A session gives the advice about a notation, and then the warnings of the build. -/
theorem Session.warnings_generate_eq (s : Session) {input : Text} {c : Compiled}
    (h : input.compile = .ok c) :
    (s.generate input).2.warnings =
      c.program.advice.map .advice ++ (c.program.build s.settings s.cache).warnings := by
  have hannounce : (announce c).outcome = .ok () := rfl
  have hadvice : (announce c).warnings = c.program.advice.map .advice := by
    have hnote : (Run.note (.accepted c.trace)).outcome = .ok () := rfl
    rw [announce, Run.warnings_bind_of_ok hnote, Run.warnings_note, Run.warnings_warn]
    rfl
  rw [Session.generate, h]
  simp only [Run.warnings_bind_of_ok hannounce, hadvice, bind_pure_comp, Run.warnings_map,
    Session.build]

/-- A session gives the advice about a notation before anything else. -/
theorem Session.advice_prefix_warnings (s : Session) {input : Text} {c : Compiled}
    (h : input.compile = .ok c) :
    c.program.advice.map .advice <+: (s.generate input).2.warnings := by
  rw [s.warnings_generate_eq h]
  exact List.prefix_append _ _

/--
Reduction drops, adds and moves no kis, no canonicalization, no reflection and no propellor.
For any valid notation, those of the program are those that are written in the notation, in the
same order, where a truncation counts as a kis with its number, and each of the other two aliases
that are made of a kis as one without.

The advice about the program is one warning for each number below three behind a kis or a
truncation of the notation, in the same order, and each has its place over the kis with just
these digits in the canonical notation.  Whatever a session has at hand, what it says about
the notation begins with this advice.
-/
theorem compile_lasting (input : Text) (h : input.validate = .ok ()) :
    ∃ c, input.compile = .ok c ∧
      ((c.program.operations.map Token.operation).filter Operation.lasts).map some =
        input.lasting.map Lexeme.operation? ∧
      (c.program.advice.map fun d => (d.severity, d.render, d.span.slice c.text)) =
        input.lowSelectors.map (fun digits : Text =>
          (Severity.warning, adviceText digits.value, 'k' :: digits)) ∧
      ∀ s : Session, input.lowSelectors.map (fun digits : Text => adviceText digits.value) <+:
        (s.generate input).2.warnings.map Warning.message := by
  have hnotation := validate_eq_ok_iff_isNotation.1 h
  obtain ⟨p, hcompile, hparse⟩ := compile_of_validate h
  obtain ⟨htext, ⟨front, last, hreads⟩, -⟩ := Program.exists_reads hparse
  have hlasting := hnotation.lasting_reduce
  have hselectors : input.reduce.output.lowSelectors = input.lowSelectors := by
    rw [Text.lowSelectors_eq, Text.lowSelectors_eq, hlasting]
  have hadvice := Program.map_advice hparse
  rw [hselectors] at hadvice
  refine ⟨⟨input.reduce, p⟩, hcompile, ?_, hadvice, ?_⟩
  · have hoperations := hreads.map_filter_lasts
    rw [htext, hlasting] at hoperations
    exact hoperations
  · intro s
    have hfirst := (s.advice_prefix_warnings hcompile).map Warning.message
    have htexts : (p.advice.map .advice).map Warning.message =
        input.lowSelectors.map fun digits : Text => adviceText digits.value := by
      have hrender := congrArg (List.map fun d => d.2.1) hadvice
      rw [List.map_map, List.map_map] at hrender
      rw [List.map_map]
      exact hrender
    rw [htexts] at hfirst
    exact hfirst

/-- A truncation with a low selector, an alias that is made of a kis, and a kis of no sides. -/
theorem compile_lasting_truncate_kis :
    Text.validate ['t', '2', 'm', 'c', 'd', 'k', '0', 'C'] = .ok () ∧
      ∃ c, Text.compile ['t', '2', 'm', 'c', 'd', 'k', '0', 'C'] = .ok c ∧
        ((c.program.operations.map Token.operation).filter Operation.lasts).map some =
          [some (.kis (some 2)), some (.kis none), some .canonicalize, some (.kis (some 0))] ∧
        (c.program.advice.map fun d => d.span.slice c.text) = [['k', '2'], ['k', '0']] ∧
        ∀ s : Session, [adviceText 2, adviceText 0] <+:
          (s.generate ['t', '2', 'm', 'c', 'd', 'k', '0', 'C']).2.warnings.map
            Warning.message := by
  have hvalid : Text.validate ['t', '2', 'm', 'c', 'd', 'k', '0', 'C'] = .ok () := by decide
  obtain ⟨c, hcompile, hlasting, hadvice, hwarnings⟩ := compile_lasting _ hvalid
  have hslices := congrArg (List.map fun d => d.2.2) hadvice
  rw [List.map_map, List.map_map] at hslices
  exact ⟨hvalid, c, hcompile, hlasting, hslices, hwarnings⟩

end Polyhedra
