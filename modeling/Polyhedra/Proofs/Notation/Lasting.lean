import Polyhedra.Proofs.Notation.LeadingZeros

/-!
# Operators that last

Reduction works on duals, ambos, gyros and seeds: it moves them, drops them and puts
others in their place.  Kis, canonicalization, reflection and propellor are left alone.
They are all that is kept of a notation by `Text.lasting`; an alias that is made of a kis
counts as that kis, with its number if it may carry one.

No rule changes what lasts, wherever it is applied (`IsNotation.lasting_of_replaces`), and so
reduction does not, since it goes from single occurrence to single occurrence.  The
operations of a program that last are then those that are written in the notation.

## Main results

* `IsNotation.lasting_of_replaces` — a rule keeps what lasts.
* `IsNotation.lasting_reduce` — reduction keeps what lasts.
* `Program.Reads.map_filter_lasts` — the operations of a program that last.
-/

namespace Polyhedra

open Lexeme

/-! ## What is kept of a notation -/

/-- Whether reduction leaves an operation alone. -/
def Operation.lasts : Operation → Bool
  | .kis _ | .canonicalize | .reflect | .propellor => true
  | .ambo | .gyro | .dual => false

namespace Lexeme

/--
What lasts of a lexeme: the operation itself, or the kis that it is made of.  Only kis and
truncation have a number.
-/
def lasting? (l : Lexeme) : Option Lexeme :=
  match l.symbol with
  | 'k' | 't' => some ⟨'k', l.digits⟩
  | 'm' | 'b' => some ⟨'k', []⟩
  | 'c' | 'r' | 'p' => some ⟨l.symbol, []⟩
  | _ => none

/-- The digits behind a letter matter only if the letter takes a number. -/
theorem lasting?_of_not_isSelectingOperator {c : Char}
    (hc : Alphabet.isSelectingOperator c = false) (ds : Text) :
    lasting? ⟨c, ds⟩ = lasting? ⟨c, []⟩ := by
  have hkis : c ≠ 'k' := by
    intro h
    rw [h] at hc
    exact absurd hc (by decide)
  have htruncate : c ≠ 't' := by
    intro h
    rw [h] at hc
    exact absurd hc (by decide)
  unfold lasting?
  split
  · exact absurd (by assumption) hkis
  · exact absurd (by assumption) htruncate
  all_goals simp_all

end Lexeme

namespace Text

/-- What lasts of a text: each kis, canonicalization, reflection and propellor, in written order. -/
def lasting (t : Text) : List Lexeme := t.lex.2.filterMap Lexeme.lasting?

variable {c : Char} {ds p t : Text}

theorem lasting_append (ht : t.NoDigitFirst) (s : Text) :
    (s ++ t).lasting = s.lasting ++ t.lasting := by
  rw [lasting, lex_append ht, List.filterMap_append]
  rfl

theorem lasting_cons (hc : c.isDigit = false) (t : Text) :
    lasting (c :: t) = (Lexeme.lasting? ⟨c, t.lex.1⟩).toList ++ t.lasting := by
  rw [lasting, lex_cons_of_not_isDigit hc, List.filterMap_cons]
  cases Lexeme.lasting? ⟨c, t.lex.1⟩ with
  | none => rfl
  | some l => rfl

/-- A number ends where the rest begins. -/
theorem lasting_letter_digits (hc : c.isDigit = false) (hds : ds.AllDigits)
    (ht : t.NoDigitFirst) :
    lasting (c :: (ds ++ t)) = (Lexeme.lasting? ⟨c, ds⟩).toList ++ t.lasting := by
  have hrest : (ds ++ t).lasting = t.lasting := by
    rw [lasting, Lexeme.lex_digits_append hds]
    rfl
  rw [lasting_cons hc, hrest, Lexeme.lex_digits_append hds, lex_fst_of_noDigitFirst ht,
    List.append_nil]

/-- No number behind the text would belong to it. -/
def isClosed (p : Text) : Bool :=
  p.getLast?.all fun c => !c.isDigit && !Alphabet.isSelectingOperator c

/-- What lasts of a text that is closed does not depend on what stands behind it. -/
theorem lasting_append_of_isClosed (hp : p.isClosed = true) (after : Text) :
    (p ++ after).lasting = p.lasting ++ after.lasting := by
  cases hlast : p.getLast? with
  | none =>
    rw [List.getLast?_eq_none_iff.1 hlast]
    rfl
  | some c =>
    obtain ⟨s, hs⟩ := List.getLast?_eq_some_iff.1 hlast
    have hletter : c.isDigit = false ∧ Alphabet.isSelectingOperator c = false := by
      simpa [isClosed, hlast] using hp
    have hfirst : ∀ t, NoDigitFirst (c :: t) := fun t => noDigitFirst_cons.2 hletter.1
    have hsame : ∀ ds, Lexeme.lasting? ⟨c, ds⟩ = Lexeme.lasting? ⟨c, []⟩ :=
      Lexeme.lasting?_of_not_isSelectingOperator hletter.2
    have hend : lasting [c] = (Lexeme.lasting? ⟨c, []⟩).toList := by
      rw [lasting_cons hletter.1]
      exact List.append_nil _
    have hsplit : s ++ [c] ++ after = s ++ c :: after := by simp
    rw [hs, hsplit, lasting_append (hfirst after), lasting_append (hfirst []),
      lasting_cons hletter.1, hsame, hend, List.append_assoc]

end Text

/-! ## Rules keep what lasts -/

/-- The same lasts of both sides of a rule, and of what stands behind them. -/
def Rule.keepsLasting : Rule → Bool
  | literal p q => p.isClosed && q.isClosed && p.lasting == q.lasting
  | suffix p q => p.lasting == q.lasting && q.head?.all fun d => !d.isDigit
  | argument _ _ _ => true

theorem Rule.keepsLasting_of_mem_table : ∀ r ∈ table, r.keepsLasting = true := by
  decide

namespace IsNotation

variable {t u : Text}

/-- Replacing one occurrence of what a rule looks for keeps what lasts. -/
theorem lasting_of_replaces {r : Rule} (hr : r ∈ Rule.table) (hstep : r.Replaces t u)
    (h : IsNotation t) : u.lasting = t.lasting := by
  have hletter := Rule.startsWithLetter_of_mem_table r hr
  have hkeeps := Rule.keepsLasting_of_mem_table r hr
  cases hstep with
  | literal p q before after =>
    cases p with
    | nil => exact absurd hletter (by simp [Rule.startsWithLetter])
    | cons c p =>
      have hc : c.isDigit = false := by simpa [Rule.startsWithLetter] using hletter
      simp only [Rule.keepsLasting, Bool.and_eq_true, beq_iff_eq] at hkeeps
      rw [List.append_assoc] at h
      have hold : IsNotation (c :: p ++ after) := (h.context hc).1
      have hnew := (agrees_of_literal hr hold).isNotation
      rw [List.append_assoc, List.append_assoc, Text.lasting_append hnew.noDigitFirst,
        Text.lasting_append hold.noDigitFirst, Text.lasting_append_of_isClosed hkeeps.1.1,
        Text.lasting_append_of_isClosed hkeeps.1.2, hkeeps.2]
  | suffix p q before =>
    cases p with
    | nil => exact absurd hletter (by simp [Rule.startsWithLetter])
    | cons c p =>
      have hc : c.isDigit = false := by simpa [Rule.startsWithLetter] using hletter
      simp only [Rule.keepsLasting, Bool.and_eq_true, beq_iff_eq] at hkeeps
      have hfirst : q.NoDigitFirst := by
        simpa [Text.NoDigitFirst, Option.all_eq_true] using hkeeps.2
      rw [Text.lasting_append hfirst, Text.lasting_append (Text.noDigitFirst_cons.2 hc),
        hkeeps.1]
  | argument letter left right before digits after all_digits maximal =>
    obtain ⟨rfl, rfl, rfl⟩ : letter = 't' ∧ left = ['d', 'k'] ∧ right = ['d'] := by
      simpa [Rule.table] using hr
    have hdual : ∀ s, Text.lasting ('d' :: s) = Text.lasting s := Text.lasting_cons (by decide)
    have hfirst : ∀ {c : Char} {s : Text}, c.isDigit = false → Text.NoDigitFirst (c :: s) :=
      Text.noDigitFirst_cons.2
    have hnew : before ++ ['d', 'k'] ++ digits ++ ['d'] ++ after =
        before ++ 'd' :: 'k' :: (digits ++ 'd' :: after) := by simp
    calc Text.lasting (before ++ ['d', 'k'] ++ digits ++ ['d'] ++ after)
        = before.lasting ++ Text.lasting ('k' :: (digits ++ 'd' :: after)) := by
          rw [hnew, Text.lasting_append (hfirst (by decide)), hdual]
      _ = before.lasting ++ ⟨'k', digits⟩ :: after.lasting := by
          rw [Text.lasting_letter_digits (by decide) all_digits (hfirst (by decide)), hdual]
          rfl
      _ = before.lasting ++ Text.lasting ('t' :: (digits ++ after)) := by
          rw [Text.lasting_letter_digits (by decide) all_digits maximal]
          rfl
      _ = Text.lasting (before ++ 't' :: digits ++ after) := by
          rw [List.append_assoc, List.cons_append, Text.lasting_append (hfirst (by decide))]

/-- Rules that are applied one after another keep what lasts. -/
theorem lasting_of_rewrites (h : IsNotation t) (hrewrites : Rule.Rewrites Rule.table t u) :
    u.lasting = t.lasting := by
  induction hrewrites with
  | refl => rfl
  | tail hbefore hlast ih =>
    obtain ⟨r, hr, hstep⟩ := hlast
    have hmid := (h.of_rewrites hbefore).1
    exact (hmid.lasting_of_replaces hr hstep).trans ih

/-- Reduction keeps what lasts. -/
theorem lasting_reduce (h : IsNotation t) : t.reduce.output.lasting = t.lasting :=
  h.lasting_of_rewrites t.rewrites_reduce

example : (Text.reduce ['t', '2', 'm', 'd', 'c', 'C']).output.lasting =
    [⟨'k', ['2']⟩, ⟨'k', []⟩, ⟨'c', []⟩] := by decide

end IsNotation

/-! ## What lasts of a program -/

namespace Lexeme

variable {l : Lexeme}

/-- Of a primitive operator all lasts, or nothing. -/
theorem lasting?_of_operation? {op : Operation} (h : l.operation? = some op) :
    l.lasting? = if op.lasts then some l else none := by
  have hsymbol := symbol_of_operation? h
  obtain ⟨symbol, digits⟩ := l
  simp only at hsymbol
  rw [hsymbol]
  cases op with
  | kis sides => rfl
  | ambo => rfl
  | gyro => rfl
  | dual => rfl
  | _ =>
    have hd : digits = [] := digits_eq_nil_of_operation? h rfl
    rw [hd]
    rfl

/-- Seeds do not count as lasting. -/
theorem lasting?_of_seed? {seed : Seed} (h : l.seed? = some seed) : l.lasting? = none := by
  rw [lasting?, symbol_of_seed? h]
  cases seed <;> rfl

end Lexeme

theorem Token.Along.map_filter_lasts {start : Nat} {ls : List Lexeme} {ts : List Token}
    (h : Along start ls ts) :
    ((ts.map Token.operation).filter Operation.lasts).map some =
      (ls.filterMap lasting?).map Lexeme.operation? := by
  induction h with
  | nil => rfl
  | @cons start l ls t ts operation span rest ih =>
    have hl := lasting?_of_operation? operation
    by_cases hlasts : t.operation.lasts = true
    · rw [if_pos hlasts] at hl
      rw [List.filterMap_cons_some hl, List.map_cons, List.filter_cons_of_pos hlasts,
        List.map_cons, List.map_cons, ih, operation]
    · rw [if_neg hlasts] at hl
      rw [List.filterMap_cons_none hl, List.map_cons, List.filter_cons_of_neg hlasts, ih]

/-- The operations of a program that last are read from what lasts of its notation. -/
theorem Program.Reads.map_filter_lasts {p : Program} {front : List Lexeme} {last : Lexeme}
    (h : p.Reads front last) :
    ((p.operations.map Token.operation).filter Operation.lasts).map some =
      p.text.lasting.map Lexeme.operation? := by
  have hlast : [last].filterMap lasting? = [] := by
    rw [List.filterMap_cons_none (lasting?_of_seed? h.seed), List.filterMap_nil]
  rw [Text.lasting, h.lex_text, List.filterMap_append, hlast, List.append_nil]
  exact h.operations.map_filter_lasts

end Polyhedra
