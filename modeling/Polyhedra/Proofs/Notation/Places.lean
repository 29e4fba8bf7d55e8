import Polyhedra.Proofs.Notation.Arguments
import Polyhedra.Proofs.Notation.Faults

/-!
# The places of faults

A fault that concerns one piece of a text carries the span of that piece.  The span counts
bytes and the carets under the text count characters, and in front of the piece there may
be anything that was accepted so far, and behind it anything at all.

A text is cut into the piece and what stands on either side of it (`Span.LiesOver`); the
slice of the text and the line of carets are told from the cut.  What the piece has to be
is told from the fault (`NotationError.IsAbout`): a character outside the alphabet, or a
run of digits with no digit beside it.  That the digits of an operator go no further is
due to the run of operators being the longest one
(`Text.OpensWith.noDigitFirst_behind`).

No fault comes up after validation, when the spans would lie over another text.

## Main results

* `Diagnostic.underline_of_liesOver` — the carets stand under the piece.
* `Text.FirstFault.exists_place` — the first fault of a text is about the piece under its
  span.
* `Text.compile_fault_placed` — where the faults of a text are, and how they are shown.
-/

namespace Polyhedra

open Text Lexeme

/-! ## Spans over a piece -/

/-- The text is cut into three pieces, and the span lies over the middle one. -/
structure Span.LiesOver (s : Span) (t before piece after : Text) : Prop where
  split : t = before ++ (piece ++ after)
  start_eq : s.start = before.byteLength
  stop_eq : s.stop = before.byteLength + piece.byteLength

theorem Text.byteLength_pos {t : Text} (h : t ≠ []) : 0 < t.byteLength := by
  obtain ⟨c, rest, rfl⟩ := List.exists_cons_of_ne_nil h
  exact Nat.lt_of_lt_of_le c.utf8Size_pos (Nat.le_add_right _ _)

namespace Span.LiesOver

variable {s : Span} {t before piece after : Text} (h : s.LiesOver t before piece after)
include h

theorem eq_mk : s = ⟨before.byteLength, before.byteLength + piece.byteLength⟩ := by
  obtain ⟨-, hstart, hstop⟩ := h
  cases s
  simp_all

theorem start_lt_stop (hne : piece ≠ []) : s.start < s.stop := by
  have hpos := byteLength_pos hne
  rw [h.start_eq, h.stop_eq]
  omega

theorem slice_eq : s.slice t = piece := by
  rw [h.eq_mk, h.split]
  exact slice_middle before piece after

/-- What stands in front of the span is the first piece. -/
theorem takeBytes?_start : t.takeBytes? s.start = some before := by
  rw [h.split, h.start_eq]
  exact takeBytes?_byteLength before _

end Span.LiesOver

namespace Diagnostic

variable {d : Diagnostic} {t before piece after : Text}

/-- One space for each character in front of the piece, and one caret for each of its own. -/
theorem underline_of_liesOver (h : d.span.LiesOver t before piece after) (hne : piece ≠ []) :
    d.underline t =
      t ++ '\n' :: (List.replicate before.length ' ' ++ List.replicate piece.length '^') := by
  have hlt := h.start_lt_stop hne
  have hnonempty : d.span.isEmpty = false := by
    rw [Span.isEmpty, Span.length, beq_eq_false_iff_ne]
    omega
  have hcarets : max 1 piece.length = piece.length :=
    Nat.max_eq_right (List.length_pos_iff.2 hne)
  have hmarks : d.marks t = (before.length, piece.length) := by
    rw [marks, hnonempty, h.takeBytes?_start, h.slice_eq, hcarets]
    rfl
  rw [underline, hmarks]

/-- An empty span stands for the whole text. -/
theorem underline_of_isEmpty (h : d.span.isEmpty = true) :
    d.underline t = t ++ '\n' :: List.replicate t.length '^' := by
  have hmarks : d.marks t = (0, t.length) := if_pos h
  rw [underline, hmarks]
  rfl

end Diagnostic

/-! ## What a fault is about -/

/-- The piece is a run of digits, and no digit stands beside it. -/
structure Text.DigitRun (before piece after : Text) : Prop where
  ne_nil : piece ≠ []
  all_digits : piece.AllDigits
  noDigitLast : ∀ d ∈ before.getLast?, d.isDigit = false
  noDigitFirst : after.NoDigitFirst

/-- The piece between two others is what the fault says is wrong. -/
inductive NotationError.IsAbout (before piece after : Text) : NotationError → Prop where
  /-- The first character outside the alphabet. -/
  | undefinedCharacter {found : Char} {span : Span} (eq_singleton : piece = [found])
      (known : ∀ c ∈ before, Alphabet.contains c = true)
      (unknown : Alphabet.contains found = false) :
      IsAbout before piece after (.undefinedCharacter found span)
  | tooFewSides {span : Span} (run : DigitRun before piece after)
      (few : piece.value < minSeedSides) :
      IsAbout before piece after (.tooFewSides piece.value span)
  | tooManySides {span : Span} (run : DigitRun before piece after)
      (many : maxSeedSides < piece.value) :
      IsAbout before piece after (.tooManySides piece.value span)
  | numberTooLarge {span : Span} (run : DigitRun before piece after)
      (large : maxNumber < piece.value) :
      IsAbout before piece after (.numberTooLarge piece span)

theorem NotationError.IsAbout.ne_nil {before piece after : Text} {e : NotationError}
    (h : e.IsAbout before piece after) : piece ≠ [] := by
  cases h with
  | undefinedCharacter eq_singleton => simp [eq_singleton]
  | tooFewSides run => exact run.ne_nil
  | tooManySides run => exact run.ne_nil
  | numberTooLarge run => exact run.ne_nil

namespace Lexeme

variable {l : Lexeme} {before after t : Text}

/-- The span of the digits of a lexeme lies over them. -/
theorem liesOver_argumentSpan (hsplit : t = before ++ (l.text ++ after)) :
    (l.argumentSpan before).LiesOver t (before ++ [l.symbol]) l.digits after := by
  refine ⟨?_, rfl, ?_⟩
  · rw [hsplit, Lexeme.text]
    simp
  · rw [← byteLength_append, argumentSpan, Lexeme.text]
    simp

/-- The digits of a lexeme are a run of their own, if no digit follows. -/
theorem digitRun (hl : l.Proper) (hne : l.digits ≠ []) (hafter : after.NoDigitFirst) :
    DigitRun (before ++ [l.symbol]) l.digits after where
  ne_nil := hne
  all_digits := hl.digits
  noDigitLast := by simpa using hl.symbol
  noDigitFirst := hafter

end Lexeme

namespace Text

variable {t rest : Text} {front back : List Lexeme} {o : Lexeme} {e : NotationError} {span : Span}

/-- The number of an operator has all the digits behind its letter, or the run would go on. -/
theorem OpensWith.noDigitFirst_behind (h : t.OpensWith (front ++ o :: back) rest)
    (ho : Alphabet.isSelectingOperator o.symbol = true) : (join back ++ rest).NoDigitFirst := by
  have hback : ∀ p ∈ back, p.SpellsOperator := fun p hp => h.operators p (by simp [hp])
  cases back with
  | cons p back => simpa [join_cons] using (hback p (by simp)).proper.symbol
  | nil =>
    cases rest with
    | nil => simp [join]
    | cons d rest =>
      have hspells := h.operators o (by simp)
      suffices hd : d.isDigit ≠ true by simpa [join] using hd
      intro hd
      have hlonger : SpellsOperator ⟨o.symbol, o.digits ++ [d]⟩ := by
        refine .inr ⟨ho, fun c hc => ?_⟩
        rcases List.mem_append.1 hc with hc | hc
        · exact hspells.allDigits c hc
        · exact List.mem_singleton.1 hc ▸ hd
      have hops : ∀ p ∈ front ++ [⟨o.symbol, o.digits ++ [d]⟩], p.SpellsOperator := by
        refine List.forall_mem_append.2 ⟨fun p hp => h.operators p (by simp [hp]), ?_⟩
        simpa using hlonger
      have hprefix : join (front ++ [⟨o.symbol, o.digits ++ [d]⟩]) <+: t := by
        refine ⟨rest, ?_⟩
        rw [h.split]
        simp [join, Lexeme.text]
      have hlength := h.longest _ hops hprefix
      rw [join_append, join_append, List.length_append, List.length_append] at hlength
      simp only [join_cons, List.length_cons, List.length_append, List.length_nil] at hlength
      omega

/-- What is wrong with the form of a text is wrong with the piece under the span. -/
theorem FormFault.exists_place (h : t.FormFault e) (hspan : e.span? = some span) :
    ∃ before piece after, span.LiesOver t before piece after ∧ e.IsAbout before piece after := by
  cases h with
  | @selector front back o rest opens _ large =>
    obtain rfl := Option.some.inj hspan
    have hne : o.digits ≠ [] := by
      intro hnil
      simp [hnil, value, maxNumber] at large
    have hspells := opens.operators o (by simp)
    have hsel : Alphabet.isSelectingOperator o.symbol = true := by
      rcases hspells with ⟨-, hnil⟩ | ⟨hsel, -⟩
      · exact absurd hnil hne
      · exact hsel
    have hsplit : t = join front ++ (o.text ++ (join back ++ rest)) := by
      rw [opens.split]
      simp [join]
    exact ⟨_, _, _, liesOver_argumentSpan hsplit,
      .numberTooLarge (digitRun hspells.proper hne (opens.noDigitFirst_behind hsel)) large⟩
  | shape => simp [NotationError.span?] at hspan
  | @sides ops seed e opens _ spells family fault =>
    have hne : seed.digits ≠ [] := by
      rcases spells with ⟨hfixed, -⟩ | ⟨-, -, hne⟩
      · simp [(Alphabet.of_isFixedSeed hfixed).2.2.1] at family
      · exact hne
    have hsplit : t = join ops ++ (seed.text ++ []) := by
      rw [opens.split, List.append_nil]
    have hplace := liesOver_argumentSpan hsplit
    have hrun : DigitRun (join ops ++ [seed.symbol]) seed.digits [] :=
      digitRun spells.proper hne noDigitFirst_nil
    cases fault with
    | numberTooLarge large =>
      obtain rfl := Option.some.inj hspan
      exact ⟨_, _, _, hplace, .numberTooLarge hrun large⟩
    | tooFewSides few =>
      obtain rfl := Option.some.inj hspan
      exact ⟨_, _, _, hplace, .tooFewSides hrun few⟩
    | tooManySides many =>
      obtain rfl := Option.some.inj hspan
      exact ⟨_, _, _, hplace, .tooManySides hrun many⟩

/-- The first fault of a text is about the piece under its span. -/
theorem FirstFault.exists_place (h : t.FirstFault e) (hspan : e.span? = some span) :
    ∃ before piece after, span.LiesOver t before piece after ∧ e.IsAbout before piece after := by
  cases h with
  | empty => simp [NotationError.span?] at hspan
  | @undefined before after found split known unknown =>
    obtain rfl := Option.some.inj hspan
    exact ⟨before, [found], after, ⟨by simpa using split, rfl, rfl⟩,
      .undefinedCharacter rfl known unknown⟩
  | form _ _ fault => exact fault.exists_place hspan

/-! ## Compilation -/

/-- A text that does not compile is turned down as it was written, before anything is rewritten. -/
theorem firstFault_of_compile (h : t.compile = .error e) : t.FirstFault e := by
  refine firstFault_of_validate ?_
  rw [← map_compile, h]
  rfl

/--
A text that does not compile has a fault, and if the fault has a span then the text is cut at
it, on boundaries of characters, into three pieces.  The one under the span is not empty; it
is the first character outside the alphabet, or a run of digits with no digit beside it that
is too large or is the side count in question.  It is what the text has under the span, and
the fault is shown by a line under the text with a space for each character in front of the
piece and a caret for each character of the piece.

A fault without a span is shown by a caret for each character of the text.
-/
theorem compile_fault_placed (h : t.compile = .error e) :
    (∀ span, e.span? = some span → ∃ before piece after,
      span.LiesOver t before piece after ∧ span.start < span.stop ∧ span.slice t = piece ∧
        e.IsAbout before piece after ∧
        (Diagnostic.ofError e).underline t =
          t ++ '\n' :: (List.replicate before.length ' ' ++ List.replicate piece.length '^')) ∧
      (e.span? = none →
        (Diagnostic.ofError e).underline t = t ++ '\n' :: List.replicate t.length '^') := by
  refine ⟨fun span hspan => ?_, fun hnone => ?_⟩
  · obtain ⟨before, piece, after, hplace, habout⟩ := (firstFault_of_compile h).exists_place hspan
    have hshown : (Diagnostic.ofError e).span = span := by
      show e.span?.getD ⟨0, 0⟩ = span
      rw [hspan, Option.getD_some]
    exact ⟨before, piece, after, hplace, hplace.start_lt_stop habout.ne_nil, hplace.slice_eq,
      habout, Diagnostic.underline_of_liesOver (hshown.symm ▸ hplace) habout.ne_nil⟩
  · refine Diagnostic.underline_of_isEmpty ?_
    show (e.span?.getD ⟨0, 0⟩).isEmpty = true
    rw [hnone]
    rfl

/--
The character `é` has two bytes and one caret; behind a truncation the side count `02` keeps
its zero; a text that ends without a seed is marked from end to end.
-/
theorem compile_fault_placed_accent :
    (compile ['k', 'é', 'C'] = .error (.undefinedCharacter 'é' ⟨1, 3⟩) ∧
      ∃ before after, (⟨1, 3⟩ : Span).LiesOver ['k', 'é', 'C'] before ['é'] after ∧
        (Diagnostic.ofError (.undefinedCharacter 'é' ⟨1, 3⟩)).underline ['k', 'é', 'C'] =
          ['k', 'é', 'C'] ++ '\n' :: (List.replicate before.length ' ' ++ ['^'])) ∧
    (compile ['t', '3', 'P', '0', '2'] = .error (.tooFewSides 2 ⟨3, 5⟩) ∧
      ∃ before after, (⟨3, 5⟩ : Span).LiesOver ['t', '3', 'P', '0', '2'] before ['0', '2'] after ∧
        NotationError.IsAbout before ['0', '2'] after (.tooFewSides 2 ⟨3, 5⟩)) ∧
    compile ['C', 'k'] = .error (.illFormed ['C', 'k']) ∧
      (Diagnostic.ofError (.illFormed ['C', 'k'])).underline ['C', 'k'] =
        ['C', 'k', '\n', '^', '^'] := by
  have haccent : compile ['k', 'é', 'C'] = .error (.undefinedCharacter 'é' ⟨1, 3⟩) := rfl
  have hsides : compile ['t', '3', 'P', '0', '2'] = .error (.tooFewSides 2 ⟨3, 5⟩) := rfl
  have hform : compile ['C', 'k'] = .error (.illFormed ['C', 'k']) := rfl
  obtain ⟨before, piece, after, hplace, -, hslice, -, hunderline⟩ :=
    (compile_fault_placed haccent).1 _ rfl
  obtain rfl : ['é'] = piece := hslice
  obtain ⟨before', piece', after', hplace', -, hslice', habout, -⟩ :=
    (compile_fault_placed hsides).1 _ rfl
  obtain rfl : ['0', '2'] = piece' := hslice'
  exact ⟨⟨haccent, before, after, hplace, hunderline⟩, ⟨hsides, before', after', hplace', habout⟩,
    hform, (compile_fault_placed hform).2 rfl⟩

end Text

end Polyhedra
