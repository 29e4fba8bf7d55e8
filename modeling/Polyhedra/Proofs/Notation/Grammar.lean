import Polyhedra.Notation.Grammar
import Mathlib.Data.List.Basic

/-!
# The grammar, read from the left

`IsNotation` builds a notation from its seed outwards.  Validation and the
rules of reduction look at it from the left, and in the middle.  This module
turns the grammar round: `IsNotation.cases_cons` says what a first letter may
be followed by, and `IsNotation.context` that a notation may be cut in front of
any letter, and that what follows the cut may be exchanged for another
notation.

## Main results

* `IsNotation.context` — the part from a letter on is a notation, and any
  notation may stand in its place.
* `validate_eq_ok_iff_isNotation` — validation decides the grammar.
-/

namespace Polyhedra

/-! ## Classes of letters -/

namespace Alphabet

/-- A property of the listed characters is decided by looking at each of them. -/
theorem forall_mem_of_all {l : List Char} {P : Char → Prop} [DecidablePred P]
    (h : l.all (fun c => decide (P c)) = true) : ∀ c ∈ l, P c := by
  simpa using h

theorem of_isPlainOperator {c : Char} (h : isPlainOperator c = true) :
    isSelectingOperator c = false ∧ isFixedSeed c = false ∧ isFamilySeed c = false ∧
      c.isDigit = false := by
  have table : ∀ c ∈ plainOperators, isSelectingOperator c = false ∧ isFixedSeed c = false ∧
      isFamilySeed c = false ∧ c.isDigit = false := forall_mem_of_all (by decide)
  exact table c (by simpa [isPlainOperator] using h)

theorem of_isSelectingOperator {c : Char} (h : isSelectingOperator c = true) :
    isPlainOperator c = false ∧ isFixedSeed c = false ∧ isFamilySeed c = false ∧
      c.isDigit = false := by
  have table : ∀ c ∈ selectingOperators, isPlainOperator c = false ∧ isFixedSeed c = false ∧
      isFamilySeed c = false ∧ c.isDigit = false := forall_mem_of_all (by decide)
  exact table c (by simpa [isSelectingOperator] using h)

theorem of_isFixedSeed {c : Char} (h : isFixedSeed c = true) :
    isPlainOperator c = false ∧ isSelectingOperator c = false ∧ isFamilySeed c = false ∧
      c.isDigit = false := by
  have table : ∀ c ∈ fixedSeeds, isPlainOperator c = false ∧ isSelectingOperator c = false ∧
      isFamilySeed c = false ∧ c.isDigit = false := forall_mem_of_all (by decide)
  exact table c (by simpa [isFixedSeed] using h)

theorem of_isFamilySeed {c : Char} (h : isFamilySeed c = true) :
    isPlainOperator c = false ∧ isSelectingOperator c = false ∧ isFixedSeed c = false ∧
      c.isDigit = false := by
  have table : ∀ c ∈ familySeeds, isPlainOperator c = false ∧ isSelectingOperator c = false ∧
      isFixedSeed c = false ∧ c.isDigit = false := forall_mem_of_all (by decide)
  exact table c (by simpa [isFamilySeed] using h)

theorem eq_of_isSelectingOperator {c : Char} (h : isSelectingOperator c = true) :
    c = 'k' ∨ c = 't' := by
  simpa [isSelectingOperator, selectingOperators] using h

theorem eq_of_isFixedSeed {c : Char} (h : isFixedSeed c = true) :
    c = 'T' ∨ c = 'C' ∨ c = 'O' ∨ c = 'I' ∨ c = 'D' := by
  simpa [isFixedSeed, fixedSeeds] using h

theorem eq_of_isFamilySeed {c : Char} (h : isFamilySeed c = true) :
    c = 'P' ∨ c = 'A' ∨ c = 'Y' := by
  simpa [isFamilySeed, familySeeds] using h

end Alphabet

/-! ## Digit runs -/

namespace Text

def AllDigits (t : Text) : Prop := ∀ d ∈ t, d.isDigit = true

/-- The text is empty or begins with something that is no digit. -/
def NoDigitFirst (t : Text) : Prop := ∀ d ∈ t.head?, d.isDigit = false

@[simp] theorem noDigitFirst_nil : NoDigitFirst [] := by simp [NoDigitFirst]

@[simp] theorem noDigitFirst_cons {c : Char} {t : Text} :
    NoDigitFirst (c :: t) ↔ c.isDigit = false := by
  simp [NoDigitFirst]

@[simp] theorem allDigits_nil : AllDigits [] := by simp [AllDigits]

@[simp] theorem allDigits_cons {c : Char} {t : Text} :
    AllDigits (c :: t) ↔ c.isDigit = true ∧ AllDigits t := by
  simp [AllDigits]

theorem takeWhile_digits_append {ds t : Text} (hds : ds.AllDigits) (ht : t.NoDigitFirst) :
    (ds ++ t).takeWhile Char.isDigit = ds := by
  rw [List.takeWhile_append_of_pos hds]
  cases t with
  | nil => simp
  | cons c t => simp [noDigitFirst_cons.1 ht]

theorem dropWhile_digits_append {ds t : Text} (hds : ds.AllDigits) (ht : t.NoDigitFirst) :
    (ds ++ t).dropWhile Char.isDigit = t := by
  rw [List.dropWhile_append_of_pos hds]
  cases t with
  | nil => simp
  | cons c t => simp [noDigitFirst_cons.1 ht]

/-- A text splits in one way into leading digits and what comes after them. -/
theorem digits_append_inj {ds es s t : Text} (hds : AllDigits ds) (hes : AllDigits es)
    (hs : NoDigitFirst s) (ht : NoDigitFirst t) (h : ds ++ s = es ++ t) : ds = es ∧ s = t := by
  constructor
  · rw [← takeWhile_digits_append hds hs, h, takeWhile_digits_append hes ht]
  · rw [← dropWhile_digits_append hds hs, h, dropWhile_digits_append hes ht]

/-- Digits in front of a letter stand in front of any text with that letter. -/
theorem exists_of_digits_append {ds s before after : Text} {c : Char} (hds : AllDigits ds)
    (hc : c.isDigit = false) (h : ds ++ s = before ++ c :: after) :
    ∃ rest, before = ds ++ rest ∧ s = rest ++ c :: after := by
  rcases List.append_eq_append_iff.1 h with ⟨rest, hb, hs⟩ | ⟨rest, hb, hs⟩
  · exact ⟨rest, hb, hs⟩
  · cases rest with
    | nil => exact ⟨[], by simpa using hb.symm, by simpa using hs.symm⟩
    | cons d rest =>
      have hcd : c = d := (List.cons.inj hs).1
      have : d.isDigit = true := hds d (by simp [hb])
      simp_all

end Text

open Text

/-! ## Sides of a seed -/

/-- What may follow the letter of a family: digits that stand for a side count. -/
structure IsSides (digits : Text) : Prop where
  all_digits : digits.AllDigits
  ne_nil : digits ≠ []
  le_value : minSeedSides ≤ digits.value
  value_le : digits.value ≤ maxSeedSides

/-! ## Inversion -/

namespace IsNotation

theorem plain {c : Char} {t : Text} (hc : Alphabet.isPlainOperator c = true)
    (ht : IsNotation t) : IsNotation (c :: t) :=
  .operator (.plain hc) ht

theorem selecting {c : Char} {ds t : Text} (hc : Alphabet.isSelectingOperator c = true)
    (hds : ds.AllDigits) (hle : ds.value ≤ maxNumber) (ht : IsNotation t) :
    IsNotation (c :: (ds ++ t)) :=
  .operator (.selecting hc hds hle) ht

theorem fixed {c : Char} (hc : Alphabet.isFixedSeed c = true) : IsNotation [c] :=
  .seed (.fixed hc)

theorem family {c : Char} {ds : Text} (hc : Alphabet.isFamilySeed c = true)
    (hds : IsSides ds) : IsNotation (c :: ds) :=
  .seed (.family hc hds.all_digits hds.ne_nil hds.le_value hds.value_le)

/-- What a first letter may be, and what may follow it. -/
theorem cases_cons {c : Char} {t : Text} (h : IsNotation (c :: t)) :
    (Alphabet.isPlainOperator c = true ∧ IsNotation t) ∨
    (Alphabet.isSelectingOperator c = true ∧ ∃ ds rest, t = ds ++ rest ∧ ds.AllDigits ∧
      ds.value ≤ maxNumber ∧ IsNotation rest) ∨
    (Alphabet.isFixedSeed c = true ∧ t = []) ∨
    (Alphabet.isFamilySeed c = true ∧ IsSides t) := by
  generalize hx : c :: t = x at h
  cases h with
  | seed isSeed =>
    cases isSeed with
    | fixed letter => simp_all
    | family letter all_digits ne_nil le_value value_le =>
      obtain ⟨rfl, rfl⟩ := List.cons.inj hx
      exact .inr (.inr (.inr ⟨letter, all_digits, ne_nil, le_value, value_le⟩))
  | operator isOperator rest =>
    cases isOperator with
    | plain letter =>
      obtain ⟨rfl, rfl⟩ := List.cons.inj hx
      exact .inl ⟨letter, rest⟩
    | selecting letter all_digits value_le =>
      obtain ⟨rfl, rfl⟩ := List.cons.inj hx
      exact .inr (.inl ⟨letter, _, _, rfl, all_digits, value_le, rest⟩)

theorem ne_nil {t : Text} (h : IsNotation t) : t ≠ [] := by
  induction h with
  | seed isSeed => cases isSeed <;> simp
  | operator _ _ ih => simp [ih]

theorem noDigitFirst {t : Text} (h : IsNotation t) : t.NoDigitFirst := by
  cases t with
  | nil => simp
  | cons c t =>
    rw [noDigitFirst_cons]
    rcases h.cases_cons with ⟨hc, _⟩ | ⟨hc, _⟩ | ⟨hc, _⟩ | ⟨hc, _⟩
    · exact (Alphabet.of_isPlainOperator hc).2.2.2
    · exact (Alphabet.of_isSelectingOperator hc).2.2.2
    · exact (Alphabet.of_isFixedSeed hc).2.2.2
    · exact (Alphabet.of_isFamilySeed hc).2.2.2

end IsNotation

section Letters

variable {c : Char} {t : Text}

theorem isNotation_plain_cons (hc : Alphabet.isPlainOperator c = true) :
    IsNotation (c :: t) ↔ IsNotation t := by
  refine ⟨fun h => ?_, .plain hc⟩
  have apart := Alphabet.of_isPlainOperator hc
  rcases h.cases_cons with h | h | h | h
  · exact h.2
  all_goals simp_all

theorem isNotation_fixed_cons (hc : Alphabet.isFixedSeed c = true) :
    IsNotation (c :: t) ↔ t = [] := by
  refine ⟨fun h => ?_, fun h => h ▸ .fixed hc⟩
  have apart := Alphabet.of_isFixedSeed hc
  rcases h.cases_cons with h | h | h | h
  · simp_all
  · simp_all
  · exact h.2
  · simp_all

theorem isNotation_family_cons (hc : Alphabet.isFamilySeed c = true) :
    IsNotation (c :: t) ↔ IsSides t := by
  refine ⟨fun h => ?_, .family hc⟩
  have apart := Alphabet.of_isFamilySeed hc
  rcases h.cases_cons with h | h | h | h
  · simp_all
  · simp_all
  · simp_all
  · exact h.2

theorem isNotation_selecting_cons (hc : Alphabet.isSelectingOperator c = true) {ds : Text}
    (hds : ds.AllDigits) (ht : t.NoDigitFirst) :
    IsNotation (c :: (ds ++ t)) ↔ ds.value ≤ maxNumber ∧ IsNotation t := by
  refine ⟨fun h => ?_, fun h => .selecting hc hds h.1 h.2⟩
  have apart := Alphabet.of_isSelectingOperator hc
  rcases h.cases_cons with h | h | h | h
  · simp_all
  · obtain ⟨es, rest, heq, hes, hle, hrest⟩ := h.2
    obtain ⟨rfl, rfl⟩ := digits_append_inj hds hes ht hrest.noDigitFirst heq
    exact ⟨hle, hrest⟩
  all_goals simp_all

end Letters

/-! ## Cutting a notation in front of a letter -/

/--
A notation may be cut in front of any letter: what follows the cut is a
notation, and any other notation may stand in its place.
-/
theorem IsNotation.context {before after : Text} {c : Char} (hc : c.isDigit = false)
    (h : IsNotation (before ++ c :: after)) :
    IsNotation (c :: after) ∧ ∀ {t : Text}, IsNotation t → IsNotation (before ++ t) := by
  -- the first operator of `before` is taken off at each step
  induction hn : before.length using Nat.strongRecOn generalizing before with
  | _ n ih =>
    cases before with
    | nil => exact ⟨h, id⟩
    | cons b before =>
      rcases h.cases_cons with ⟨hb, hrest⟩ | ⟨hb, ds, rest, heq, hds, hle, hrest⟩ | ⟨_, hnil⟩ |
        ⟨_, hsides⟩
      · obtain ⟨hcut, hput⟩ := ih before.length (by simp [← hn]) hrest rfl
        exact ⟨hcut, fun ht => .plain hb (hput ht)⟩
      · obtain ⟨between, rfl, rfl⟩ := exists_of_digits_append hds hc heq.symm
        obtain ⟨hcut, hput⟩ := ih between.length
          (by simp only [List.length_cons, List.length_append] at hn; omega) hrest rfl
        refine ⟨hcut, fun {t} ht => ?_⟩
        have := IsNotation.selecting hb hds hle (hput ht)
        simpa using this
      · simp at hnil
      · have := hsides.all_digits c (by simp)
        simp_all

/-! ## Validation -/

/-- The letter of a lexeme is no digit, and its digits are. -/
structure Lexeme.Proper (l : Lexeme) : Prop where
  symbol : l.symbol.isDigit = false
  digits : l.digits.AllDigits

namespace Text

theorem allDigits_lex (t : Text) : t.lex.1.AllDigits := by
  induction t with
  | nil => simp
  | cons c t ih =>
    cases h : c.isDigit with
    | true => simpa [lex_cons_of_isDigit h, h] using ih
    | false => simp [lex_cons_of_not_isDigit h]

theorem proper_of_mem_lex (t : Text) : ∀ l ∈ t.lex.2, l.Proper := by
  induction t with
  | nil => simp
  | cons c t ih =>
    cases h : c.isDigit with
    | true => simpa [lex_cons_of_isDigit h] using ih
    | false =>
      intro l hl
      rw [lex_cons_of_not_isDigit h, List.mem_cons] at hl
      rcases hl with rfl | hl
      · exact ⟨h, allDigits_lex t⟩
      · exact ih l hl

theorem lex_fst_of_noDigitFirst {t : Text} (ht : t.NoDigitFirst) : t.lex.1 = [] := by
  cases t with
  | nil => rfl
  | cons e t => rw [lex_cons_of_not_isDigit (noDigitFirst_cons.1 ht)]

/-- A text is cut between two lexemes where no digit stands behind the cut. -/
theorem lex_append {t : Text} (ht : t.NoDigitFirst) (s : Text) :
    (s ++ t).lex = (s.lex.1, s.lex.2 ++ t.lex.2) := by
  induction s with
  | nil => exact Prod.ext (lex_fst_of_noDigitFirst ht) rfl
  | cons d s ih =>
    cases hd : d.isDigit with
    | true => simp [lex_cons_of_isDigit hd, ih]
    | false => simp [lex_cons_of_not_isDigit hd, ih]

theorem readNumber_eq_ok_iff {ds : Text} {span : Span} {n : Nat} :
    ds.readNumber span = .ok n ↔ ds.value = n ∧ ds.value ≤ maxNumber := by
  unfold readNumber
  by_cases h : ds.value ≤ maxNumber
  · simp [h]
  · simp [h]

theorem readSides_eq_ok_iff {ds : Text} {span : Span} {n : Nat} :
    ds.readSides span = .ok n ↔ ds.value = n ∧ minSeedSides ≤ n ∧ n ≤ maxSeedSides := by
  have hmax : maxSeedSides ≤ maxNumber := by decide
  constructor
  · intro h
    unfold readSides readNumber checkSides at h
    split at h
    · simp only [Except.bind] at h
      split at h
      · simp at h
      · split at h
        · simp at h
        · have heq : ds.value = n := Except.ok.inj h
          exact ⟨heq, by omega, by omega⟩
    · simp [Except.bind] at h
  · rintro ⟨rfl, hge, hle⟩
    unfold readSides readNumber checkSides
    rw [if_pos (by omega)]
    simp only [Except.bind]
    rw [if_neg (by omega), if_neg (by omega)]

theorem firstUndefined?_eq_none_iff {t : Text} (offset : Nat) :
    t.firstUndefined? offset = none ↔ ∀ c ∈ t, Alphabet.contains c = true := by
  induction t generalizing offset with
  | nil => simp [firstUndefined?]
  | cons c t ih =>
    cases h : Alphabet.contains c with
    | true => simp [firstUndefined?, h, ih]
    | false => simp [firstUndefined?, h]

end Text

namespace Lexeme

theorem join_cons (l : Lexeme) (ls : List Lexeme) :
    join (l :: ls) = l.symbol :: (l.digits ++ join ls) := by
  simp [join, text]

theorem noDigitFirst_join {ls : List Lexeme} (h : ∀ l ∈ ls, l.Proper) :
    (join ls).NoDigitFirst := by
  cases ls with
  | nil => simp [join]
  | cons l ls => simpa [join_cons] using (h l (by simp)).symbol

theorem join_eq_nil_iff {ls : List Lexeme} : join ls = [] ↔ ls = [] := by
  cases ls <;> simp [join, text]

theorem join_append (ls ms : List Lexeme) : join (ls ++ ms) = join ls ++ join ms := by
  simp [join]

/-- A lexeme has at least the bytes of its letter. -/
theorem width_pos (l : Lexeme) : 0 < l.width :=
  Nat.lt_of_lt_of_le l.symbol.utf8Size_pos (Nat.le_add_right _ _)

theorem byteLength_join_cons (l : Lexeme) (ls : List Lexeme) :
    (join (l :: ls)).byteLength = l.width + (join ls).byteLength := by
  rw [join, List.flatMap_cons, Text.byteLength_append]
  rfl

theorem lex_digits_append {ds : Text} (hds : ds.AllDigits) (t : Text) :
    Text.lex (ds ++ t) = (ds ++ t.lex.1, t.lex.2) := by
  induction ds with
  | nil => rfl
  | cons d ds ih =>
    rw [Text.allDigits_cons] at hds
    rw [List.cons_append, Text.lex_cons_of_isDigit hds.1, ih hds.2, List.cons_append]

theorem lex_join {ls : List Lexeme} (h : ∀ l ∈ ls, l.Proper) : Text.lex (join ls) = ([], ls) := by
  induction ls with
  | nil => rfl
  | cons l ls ih =>
    have hl := h l (by simp)
    have hls := ih fun m hm => h m (by simp [hm])
    rw [join_cons, Text.lex_cons_of_not_isDigit hl.symbol, lex_digits_append hl.digits, hls]
    simp

/-- The pieces of a text are found in one way. -/
theorem join_inj {ls ms : List Lexeme} (hls : ∀ l ∈ ls, l.Proper) (hms : ∀ l ∈ ms, l.Proper)
    (h : join ls = join ms) : ls = ms := by
  have := (lex_join hls).symm.trans ((congrArg Text.lex h).trans (lex_join hms))
  exact (Prod.mk.inj this).2

theorem not_isNotation_of_digits {ds t : Text} (hds : ds.AllDigits) (hne : ds ≠ []) :
    ¬ IsNotation (ds ++ t) := by
  intro h
  cases ds with
  | nil => exact hne rfl
  | cons d ds =>
    have hfirst := noDigitFirst_cons.1 h.noDigitFirst
    rw [(allDigits_cons.1 hds).1] at hfirst
    exact Bool.noConfusion hfirst

private theorem allDigits_append_join {ds : Text} {ls : List Lexeme} (h : ∀ l ∈ ls, l.Proper)
    (hall : (ds ++ join ls).AllDigits) : ls = [] := by
  cases ls with
  | nil => rfl
  | cons l ls =>
    have := hall l.symbol (by simp [join_cons])
    simp [(h l (by simp)).symbol] at this

private theorem map_readSides_eq_ok_iff {ds : Text} {span : Span} (hds : ds.AllDigits)
    (hne : ds ≠ []) :
    (ds.readSides span).map (fun _ => ()) = .ok () ↔ IsSides ds := by
  constructor
  · intro h
    cases hread : ds.readSides span with
    | error e => simp [hread, Except.map] at h
    | ok n =>
      obtain ⟨rfl, hge, hle⟩ := readSides_eq_ok_iff.1 hread
      exact ⟨hds, hne, hge, hle⟩
  · intro h
    rw [readSides_eq_ok_iff.2 ⟨rfl, h.le_value, h.value_le⟩]
    rfl

/-- Reading the lexemes of a text decides whether it is a notation. -/
theorem validateAll_eq_ok_iff {whole : Text} (start : Nat) {ls : List Lexeme}
    (h : ∀ l ∈ ls, l.Proper) : validateAll whole start ls = .ok () ↔ IsNotation (join ls) := by
  induction ls generalizing start with
  | nil =>
    simp only [validateAll, reduceCtorEq, false_iff]
    exact fun hnil => hnil.ne_nil rfl
  | cons l ls ih =>
    have hl := h l (by simp)
    have hls : ∀ l ∈ ls, l.Proper := fun l hmem => h l (by simp [hmem])
    have hfirst := noDigitFirst_join hls
    rw [join_cons, validateAll]
    split_ifs with hplain hdigits hsel hfix hend hfam hsides
    · rw [ih _ hls, hdigits, List.nil_append, isNotation_plain_cons hplain]
    · simp only [false_iff, isNotation_plain_cons hplain]
      exact not_isNotation_of_digits hl.digits hdigits
    · rw [isNotation_selecting_cons hsel hl.digits hfirst, ← ih (start + l.width) hls]
      constructor
      · intro hok
        split at hok
        · simp at hok
        · next n hn => exact ⟨(readNumber_eq_ok_iff.1 hn).2, hok⟩
      · rintro ⟨hle, hok⟩
        rw [readNumber_eq_ok_iff.2 ⟨rfl, hle⟩]
        exact hok
    · simp [isNotation_fixed_cons hfix, hend, join]
    · simp only [false_iff, isNotation_fixed_cons hfix, List.append_eq_nil_iff,
        join_eq_nil_iff]
      exact hend
    · rw [isNotation_family_cons hfam, map_readSides_eq_ok_iff hl.digits hsides.1]
      simp [hsides.2, join]
    · simp only [false_iff, isNotation_family_cons hfam]
      intro hs
      have hnil := allDigits_append_join hls hs.all_digits
      refine hsides ⟨?_, hnil⟩
      have := hs.ne_nil
      simpa [hnil, join] using this
    · simp only [false_iff]
      intro hnot
      rcases hnot.cases_cons with hc | hc | hc | hc
      all_goals simp_all

end Lexeme

theorem IsNotation.forall_contains {t : Text} (h : IsNotation t) :
    ∀ c ∈ t, Alphabet.contains c = true := by
  have digits : ∀ ds : Text, ds.AllDigits → ∀ c ∈ ds, Alphabet.contains c = true := by
    intro ds hds c hc
    simp [Alphabet.contains, hds c hc]
  induction h with
  | seed isSeed =>
    cases isSeed with
    | fixed letter => simp [Alphabet.contains, Alphabet.isSeed, letter]
    | family letter all_digits =>
      intro c hc
      rcases List.mem_cons.1 hc with rfl | hc
      · simp [Alphabet.contains, Alphabet.isSeed, letter]
      · exact digits _ all_digits c hc
  | operator isOperator _ ih =>
    intro c hc
    rcases List.mem_append.1 hc with hc | hc
    · cases isOperator with
      | plain letter =>
        rw [List.mem_singleton.1 hc]
        simp [Alphabet.contains, letter]
      | selecting letter all_digits =>
        rcases List.mem_cons.1 hc with rfl | hc
        · simp [Alphabet.contains, letter]
        · exact digits _ all_digits c hc
    · exact ih c hc

/-- Validation accepts the notations of the grammar and nothing else. -/
theorem validate_eq_ok_iff_isNotation {t : Text} : t.validate = .ok () ↔ IsNotation t := by
  unfold Text.validate
  split_ifs with hnil
  · simp only [false_iff, hnil]
    exact fun h => h.ne_nil rfl
  · split
    · next c span hfound =>
      simp only [reduceCtorEq, false_iff]
      intro h
      have := (Text.firstUndefined?_eq_none_iff 0).2 h.forall_contains
      simp [this] at hfound
    · have hjoin := Text.lex_join t
      have hproper := Text.proper_of_mem_lex t
      have hdigits := Text.allDigits_lex t
      split
      · next ls hlex =>
        rw [hlex] at hjoin hproper
        rw [Lexeme.validateAll_eq_ok_iff _ hproper, ← hjoin, List.nil_append]
      · next d ds ls hlex =>
        rw [hlex] at hjoin hdigits
        simp only [reduceCtorEq, false_iff]
        intro h
        have hfirst := h.noDigitFirst
        have hd := (allDigits_cons.1 hdigits).1
        rw [← hjoin, List.cons_append, noDigitFirst_cons, hd] at hfirst
        exact Bool.noConfusion hfirst

end Polyhedra
