import Polyhedra.Proofs.Notation.Reading
import Mathlib.Data.List.DropRight

/-!
# The numbers of a notation

A notation has numbers in two places: behind letters that call for a kis, which
are kis itself and three aliases, and at its end, where the side count of the
seed stands (`Text.numbers`).  Reduction rewrites letters and drags numbers
along.  Putting a letter in front of a canonical rest either leaves the numbers
of the rest alone or adds the number that came with the letter, and so the
canonical form has the numbers of the notation, in the same order.  Only where
the seed is a Platonic solid in disguise its side count goes with the family
letter.

The program that is read from the canonical form has these numbers in its
operations and in its seed.

## Main results

* `IsNotation.numbers_canonical` — reduction keeps the numbers.
* `Program.Reads.selectors_eq`, `Program.Reads.sides?_eq` — a program has the
  numbers of its notation.
* `compile_faithful` — what compiles, and with what numbers.
-/

namespace Polyhedra

/-! ## Numbers and where they stand -/

/-- The letters of the operators that make use of kis: kis itself and three aliases. -/
def kisLetters : Text := ['k', 't', 'b', 'm']

/-- The digits behind a letter that calls for a kis. -/
def Lexeme.selector? (l : Lexeme) : Option Text :=
  if l.symbol ∈ kisLetters then some l.digits else none

namespace Text

/-- The numbers of a notation: the selectors in written order, and the side count of the seed. -/
@[ext]
structure Numbers where
  selectors : List Text
  sideCount : Text
  deriving DecidableEq

/-- A further selector in front. -/
def Numbers.select (digits : Text) (n : Numbers) : Numbers :=
  { n with selectors := digits :: n.selectors }

/-- The same selectors, and no side count. -/
def Numbers.sideless (n : Numbers) : Numbers := { n with sideCount := [] }

/-- What stands behind each letter that calls for a kis, if anything, and the digits at the end. -/
def numbers (t : Text) : Numbers where
  selectors := t.lex.2.filterMap Lexeme.selector?
  sideCount := t.rtakeWhile Char.isDigit

/-- The number that the digits stand for, if there are any. -/
def number? (digits : Text) : Option Nat := if digits = [] then none else some digits.value

variable {c : Char} {ds s t : Text}

theorem sideCount_append_cons (hc : c.isDigit = false) :
    (numbers (s ++ c :: t)).sideCount = (numbers t).sideCount := by
  show (s ++ c :: t).rtakeWhile Char.isDigit = t.rtakeWhile Char.isDigit
  have hreverse : (s ++ c :: t).reverse = t.reverse ++ c :: s.reverse := by simp
  rw [List.rtakeWhile, List.rtakeWhile, hreverse, List.takeWhile_append]
  split
  · next hall =>
    have hwhole := (List.takeWhile_prefix Char.isDigit).eq_of_length hall
    simp [hc, hwhole]
  · rfl

theorem numbers_digits (hds : ds.AllDigits) : numbers ds = ⟨[], ds⟩ := by
  have hlex := Lexeme.lex_digits_append hds []
  rw [List.append_nil] at hlex
  have hcount : ds.rtakeWhile Char.isDigit = ds := List.rtakeWhile_eq_self_iff.2 hds
  rw [numbers, hlex, hcount]
  rfl

/-- Letters that do not call for a kis have no numbers, but for that of the seed. -/
theorem numbers_cons (hc : c.isDigit = false) (hkis : c ∉ kisLetters) :
    numbers (c :: t) = numbers t := by
  have hselectors : (numbers (c :: t)).selectors = (numbers t).selectors := by
    show (lex (c :: t)).2.filterMap _ = _
    rw [lex_cons_of_not_isDigit hc]
    exact List.filterMap_cons_none (if_neg hkis)
  exact Numbers.ext hselectors (sideCount_append_cons (s := []) hc)

/-- A letter that calls for a kis has the number behind it, which ends where the rest begins. -/
theorem numbers_kis (hc : c.isDigit = false) (hkis : c ∈ kisLetters) (hds : ds.AllDigits)
    (hne : t ≠ []) (ht : t.NoDigitFirst) : numbers (c :: (ds ++ t)) = t.numbers.select ds := by
  have hselectors : (numbers (c :: (ds ++ t))).selectors = ds :: t.numbers.selectors := by
    show (lex (c :: (ds ++ t))).2.filterMap _ = _
    rw [Lexeme.lex_letter_digits hc hds, lex_fst_of_noDigitFirst ht, List.append_nil]
    exact List.filterMap_cons_some (if_pos hkis)
  have hcount : (numbers (c :: (ds ++ t))).sideCount = t.numbers.sideCount := by
    obtain ⟨e, rest, rfl⟩ := List.exists_cons_of_ne_nil hne
    have he := noDigitFirst_cons.1 ht
    calc (numbers (c :: (ds ++ e :: rest))).sideCount
        = (numbers rest).sideCount := sideCount_append_cons (s := c :: ds) he
      _ = (numbers (e :: rest)).sideCount := (sideCount_append_cons (s := []) he).symm
  exact Numbers.ext hselectors hcount

/-! ## Letters in front of a canonical rest -/

theorem numbers_pushDual (t : Text) : (pushDual t).numbers = t.numbers := by
  unfold pushDual
  split <;> simp [numbers_cons, kisLetters]

theorem numbers_pushAmbo (t : Text) : (pushAmbo t).numbers = t.numbers := by
  have plain : ∀ t, (pushAmboPlain t).numbers = t.numbers := by
    intro t
    unfold pushAmboPlain
    split <;> simp [numbers_cons, kisLetters]
  unfold pushAmbo
  split <;> simp [plain, numbers_cons, kisLetters]

theorem numbers_pushGyro (t : Text) : (pushGyro t).numbers = t.numbers := by
  have plain : ∀ t, (pushGyroPlain t).numbers = t.numbers := by
    intro t
    unfold pushGyroPlain
    split <;> simp [numbers_cons, kisLetters]
  unfold pushGyro
  split <;> simp [plain, numbers_cons, kisLetters]

theorem numbers_pushJoin (t : Text) : (pushJoin t).numbers = t.numbers := by
  rw [pushJoin, numbers_pushDual, numbers_pushAmbo, numbers_pushDual]

/-- Truncation carries its number over to the kis that it is made of. -/
theorem numbers_pushTruncate (hds : ds.AllDigits) (ht : t.Settled) :
    (pushTruncate (ds ++ t)).numbers = t.numbers.select ds := by
  have hdual := ht.pushDual
  rw [pushTruncate, takeWhile_digits_append hds ht.noDigitFirst,
    dropWhile_digits_append hds ht.noDigitFirst, numbers_pushDual,
    numbers_kis (by decide) (by decide) hds hdual.ne_nil hdual.noDigitFirst, numbers_pushDual]

/-- An operator that does not call for a kis leaves the numbers alone. -/
theorem numbers_push (hc : Alphabet.isPlainOperator c = true) (hkis : c ∉ kisLetters) :
    (push c t).numbers = t.numbers := by
  have letters : c = 'd' ∨ c = 'a' ∨ c = 'g' ∨ c = 'j' ∨ c = 's' ∨ c = 'e' ∨ c = 'o' ∨
      c = 'c' ∨ c = 'r' ∨ c = 'p' := by
    have table : ∀ c ∈ Alphabet.plainOperators, c ∉ kisLetters → c = 'd' ∨ c = 'a' ∨ c = 'g' ∨
        c = 'j' ∨ c = 's' ∨ c = 'e' ∨ c = 'o' ∨ c = 'c' ∨ c = 'r' ∨ c = 'p' :=
      Alphabet.forall_mem_of_all (by decide)
    exact table c (by simpa [Alphabet.isPlainOperator] using hc) hkis
  rcases letters with rfl | rfl | rfl | rfl | rfl | rfl | rfl | rfl | rfl | rfl
  · exact numbers_pushDual t
  · exact numbers_pushAmbo t
  · exact numbers_pushGyro t
  · exact numbers_pushJoin t
  · show (pushDual (pushGyro (pushDual t))).numbers = _
    rw [numbers_pushDual, numbers_pushGyro, numbers_pushDual]
  · exact (numbers_pushAmbo _).trans (numbers_pushAmbo t)
  · exact (numbers_pushJoin _).trans (numbers_pushJoin t)
  all_goals exact numbers_cons (by decide) (by decide)

/-- An operator that calls for a kis adds the number behind it, if it may have one. -/
theorem numbers_push_kis (hkis : c ∈ kisLetters) (hds : ds.AllDigits)
    (hnumber : Alphabet.isSelectingOperator c = true ∨ ds = []) (ht : t.Settled) :
    (push c (ds ++ t)).numbers = t.numbers.select ds := by
  have letters : c = 'k' ∨ c = 't' ∨ c = 'b' ∨ c = 'm' := by simpa [kisLetters] using hkis
  rcases letters with rfl | rfl | rfl | rfl
  · exact numbers_kis (by decide) (by decide) hds ht.ne_nil ht.noDigitFirst
  · exact numbers_pushTruncate hds ht
  · obtain rfl : ds = [] := hnumber.resolve_left (by decide)
    show (pushTruncate ([] ++ pushAmbo t)).numbers = _
    rw [numbers_pushTruncate allDigits_nil (settled_pushAmbo t), numbers_pushAmbo]
  · obtain rfl : ds = [] := hnumber.resolve_left (by decide)
    have hjoin : (pushJoin t).Settled := (settled_pushAmbo _).pushDual
    show numbers ('k' :: ([] ++ pushJoin t)) = _
    rw [numbers_kis (by decide) (by decide) allDigits_nil hjoin.ne_nil hjoin.noDigitFirst,
      numbers_pushJoin]

end Text

open Text

/-! ## The canonical form -/

/--
The canonical form has the numbers of the notation, in the same order; where the
seed is a Platonic solid the side count goes with the family letter.
-/
theorem IsNotation.numbers_canonical {t : Text} (h : IsNotation t) :
    t.canonical.numbers = if t.Degenerate then t.numbers.sideless else t.numbers := by
  induction h with
  | seed isSeed =>
    cases isSeed with
    | @fixed c letter =>
      rcases Alphabet.eq_of_isFixedSeed letter with rfl | rfl | rfl | rfl | rfl <;> decide
    | @family c digits letter all_digits =>
      have hdigits : digits.canonical = digits := by
        simpa [canonical] using canonical_digits all_digits []
      rw [canonical_cons, hdigits]
      by_cases hdeg : Degenerate (c :: digits)
      · rw [if_pos hdeg]
        rcases hdeg with hend | hend | hend
        all_goals
          obtain ⟨rfl, rfl⟩ := pair_suffix_digits all_digits (by decide) hend
          decide
      · rw [if_neg hdeg, push_family letter hdeg]
  | @operator o s isOperator rest ih =>
    have hs := rest.settled_canonical
    have kis : ∀ {c : Char} {ds : Text}, c ∈ kisLetters → c.isDigit = false → ds.AllDigits →
        (Alphabet.isSelectingOperator c = true ∨ ds = []) →
        (canonical (c :: ds ++ s)).numbers =
          if Degenerate (c :: ds ++ s) then (numbers (c :: ds ++ s)).sideless
          else numbers (c :: ds ++ s) := by
      intro c ds hkis hc hds hnumber
      simp only [rest.degenerate_append]
      rw [List.cons_append, canonical_cons, canonical_digits hds,
        numbers_push_kis hkis hds hnumber hs, ih,
        numbers_kis hc hkis hds rest.ne_nil rest.noDigitFirst]
      split <;> rfl
    cases isOperator with
    | @plain c letter =>
      have hdigit := (Alphabet.of_isPlainOperator letter).2.2.2
      by_cases hkis : c ∈ kisLetters
      · exact kis hkis hdigit allDigits_nil (.inr rfl)
      · simp only [rest.degenerate_append]
        rw [List.cons_append, List.nil_append, canonical_cons, numbers_push letter hkis, ih,
          numbers_cons hdigit hkis]
    | @selecting c digits letter all_digits =>
      have hkis : c ∈ kisLetters := by
        rcases Alphabet.eq_of_isSelectingOperator letter with rfl | rfl <;> decide
      exact kis hkis (Alphabet.of_isSelectingOperator letter).2.2.2 all_digits (.inl letter)

/-! ## The numbers of a program -/

/-- The selector of a kis. -/
def Operation.selector? : Operation → Option (Option Nat)
  | .kis sides => some sides
  | _ => none

/-- The selectors of the kis operations of a program, in written order. -/
def Program.selectors (p : Program) : List (Option Nat) :=
  p.operations.filterMap fun t => t.operation.selector?

namespace Lexeme

variable {l : Lexeme}

/-- A kis has the number behind its letter for its selector. -/
theorem selector?_of_operation? {op : Operation} (h : l.operation? = some op) :
    op.selector? = l.selector?.map number? := by
  have hsymbol := symbol_of_operation? h
  cases op with
  | kis sides =>
    have hdigits : sides = l.digits.number? := by
      unfold operation? at h
      rw [hsymbol] at h
      by_cases hd : l.digits = []
      · simpa [Operation.symbol, Operation.ofSymbol?, number?, hd, eq_comm] using h
      · simpa [Operation.symbol, Operation.ofSymbol?, number?, hd, eq_comm] using h
    rw [selector?, hsymbol, hdigits]
    rfl
  | _ =>
    rw [selector?, hsymbol]
    rfl

/-- Of the operators only kis has a number. -/
theorem symbol_eq_of_digits {op : Operation} (h : l.operation? = some op) (hd : l.digits ≠ []) :
    l.symbol = 'k' := by
  have hsymbol := symbol_of_operation? h
  cases op with
  | kis sides => exact hsymbol
  | _ =>
    unfold operation? at h
    rw [hsymbol] at h
    simp [Operation.symbol, Operation.ofSymbol?, hd] at h

/-- Operations other than kis have no digits behind their letter. -/
theorem digits_eq_nil_of_operation? {op : Operation} (h : l.operation? = some op)
    (hop : op.selector? = none) : l.digits = [] := by
  by_contra hd
  have hkis := symbol_eq_of_digits h hd
  rw [symbol_of_operation? h] at hkis
  cases op with
  | kis sides => simp [Operation.selector?] at hop
  | _ => simp [Operation.symbol] at hkis

theorem selector?_of_seed? {seed : Seed} (h : l.seed? = some seed) : l.selector? = none := by
  have hsymbol := symbol_of_seed? h
  rw [selector?, hsymbol]
  cases seed <;> rfl

/-- A seed has the number behind its letter for its side count. -/
theorem sides?_of_seed? {seed : Seed} (h : l.seed? = some seed) :
    seed.sides? = l.digits.number? :=
  (of_seedOfSymbol? h).2

/-- Of the seeds only the members of families have a number. -/
theorem isFamilySeed_of_digits {seed : Seed} (h : l.seed? = some seed) (hd : l.digits ≠ []) :
    Alphabet.isFamilySeed l.symbol = true := by
  have hsides := sides?_of_seed? h
  rw [number?, if_neg hd] at hsides
  rw [symbol_of_seed? h]
  cases seed with
  | prism _ => rfl
  | antiprism _ => rfl
  | pyramid _ => rfl
  | _ => simp [Seed.sides?] at hsides

end Lexeme

theorem Token.Along.selectors_eq {start : Nat} {ls : List Lexeme} {ts : List Token}
    (h : Along start ls ts) :
    ts.filterMap (fun t => t.operation.selector?) =
      (ls.filterMap Lexeme.selector?).map number? := by
  induction h with
  | nil => rfl
  | @cons start l ls t ts operation span rest ih =>
    have hselector := Lexeme.selector?_of_operation? operation
    rw [List.filterMap_cons, List.filterMap_cons, hselector, ih]
    cases l.selector? <;> rfl

theorem Token.Along.exists_operation {start : Nat} {ls : List Lexeme} {ts : List Token}
    (h : Along start ls ts) {l : Lexeme} (hl : l ∈ ls) : ∃ op, l.operation? = some op := by
  induction h with
  | nil => simp at hl
  | cons operation span rest ih =>
    rcases List.mem_cons.1 hl with rfl | hl
    · exact ⟨_, operation⟩
    · exact ih hl

namespace Program.Reads

variable {p : Program} {front : List Lexeme} {last : Lexeme} (h : p.Reads front last)
include h

theorem lex_text : p.text.lex = ([], front ++ [last]) := by
  rw [h.text]
  exact Lexeme.lex_join h.proper

/-- The selectors of a program are those of its notation. -/
theorem selectors_eq : p.selectors = p.text.numbers.selectors.map number? := by
  have hlast : [last].filterMap Lexeme.selector? = [] := by
    rw [List.filterMap_cons_none (Lexeme.selector?_of_seed? h.seed), List.filterMap_nil]
  rw [numbers, h.lex_text, List.filterMap_append, hlast, List.append_nil]
  exact h.operations.selectors_eq

/-- The side count of a notation stands in its last lexeme. -/
theorem sideCount_eq : p.text.numbers.sideCount = last.digits := by
  have hlast := h.proper last (by simp)
  have htext : p.text = Lexeme.join front ++ last.symbol :: last.digits := by
    rw [h.text, Lexeme.join_append, Lexeme.join_cons]
    simp [Lexeme.join]
  rw [htext, sideCount_append_cons hlast.symbol, numbers_digits hlast.digits]

/-- The side count of a program is that of its notation. -/
theorem sides?_eq : p.seed.sides? = p.text.numbers.sideCount.number? := by
  rw [h.sideCount_eq]
  exact Lexeme.sides?_of_seed? h.seed

/-- In the notation of a program numbers stand behind kis and behind the letter of a family. -/
theorem symbol_of_digits {l : Lexeme} (hl : l ∈ p.text.lex.2) (hd : l.digits ≠ []) :
    l.symbol = 'k' ∨ Alphabet.isFamilySeed l.symbol = true := by
  rw [h.lex_text, List.mem_append, List.mem_singleton] at hl
  rcases hl with hl | rfl
  · obtain ⟨op, hop⟩ := h.operations.exists_operation hl
    exact .inl (Lexeme.symbol_eq_of_digits hop hd)
  · exact .inr (Lexeme.isFamilySeed_of_digits h.seed hd)

end Program.Reads

/-! ## Compilation -/

/-- Compilation succeeds where validation does, and fails with its fault. -/
theorem map_compile (input : Text) : (input.compile.map fun _ => ()) = input.validate := by
  cases hvalid : input.validate with
  | error e =>
    unfold Text.compile
    rw [hvalid]
    rfl
  | ok u =>
    obtain ⟨p, hcompile, -⟩ := compile_of_validate hvalid
    rw [hcompile]
    rfl

theorem validate_of_compile {input : Text} {c : Compiled} (h : input.compile = .ok c) :
    input.validate = .ok () := by
  rw [← map_compile, h]
  rfl

/--
Any text compiles if it is valid, and is turned down with the fault of its
validation if it is not.  The canonical form of a valid notation is read as a
program, is free of aliases, has numbers behind kis and behind family letters
alone, and has the numbers of the notation there, as does the program; only a
seed that is a Platonic solid loses its side count.  A side count that is left
is one that a seed may have.
-/
theorem compile_faithful (input : Text) :
    (input.compile.map fun _ => ()) = input.validate ∧
      (input.validate = .ok () → ∃ p, Program.parse input.reduce.output = .ok p ∧
        input.compile = .ok ⟨input.reduce, p⟩ ∧
        (∀ c ∈ Alphabet.aliases, c ∉ input.reduce.output) ∧
        (∀ l ∈ input.reduce.output.lex.2, l.digits ≠ [] →
          l.symbol = 'k' ∨ Alphabet.isFamilySeed l.symbol = true) ∧
        input.reduce.output.numbers =
          (if input.Degenerate then input.numbers.sideless else input.numbers) ∧
        p.selectors = input.numbers.selectors.map number? ∧
        p.seed.sides? = (if input.Degenerate then none else input.numbers.sideCount.number?) ∧
        ∀ n, p.seed.sides? = some n → 3 ≤ n ∧ n ≤ 10000) := by
  refine ⟨map_compile input, fun hvalid => ?_⟩
  have hnotation := validate_eq_ok_iff_isNotation.1 hvalid
  obtain ⟨p, hcompile, hparse⟩ := compile_of_validate hvalid
  obtain ⟨htext, ⟨front, last, hreads⟩, hsides⟩ := Program.exists_reads hparse
  have hnumbers := hnotation.numbers_canonical
  rw [← hnotation.output_reduce_eq_canonical] at hnumbers
  have hselectors := hreads.selectors_eq
  have hcount := hreads.sides?_eq
  rw [htext, hnumbers] at hselectors hcount
  refine ⟨p, hparse, hcompile, fun c hc => input.plain_reduce.notMem hc, ?_, hnumbers, ?_, ?_,
    hsides⟩
  · intro l hl hd
    rw [← htext] at hl
    exact hreads.symbol_of_digits hl hd
  · rw [hselectors]
    split <;> rfl
  · rw [hcount]
    split <;> rfl

/-- The truncation of a kis of the ambo of a pyramid is read with all of its three numbers. -/
theorem compile_faithful_truncate_kis_ambo :
    Text.validate ['t', '1', '2', 'm', 'k', '3', 'a', 'Y', '5'] = .ok () ∧
      ∃ p,
        Program.parse (Text.reduce ['t', '1', '2', 'm', 'k', '3', 'a', 'Y', '5']).output = .ok p ∧
        p.selectors = [some 12, none, some 3] ∧ p.seed.sides? = some 5 := by
  have hvalid : Text.validate ['t', '1', '2', 'm', 'k', '3', 'a', 'Y', '5'] = .ok () := by decide
  obtain ⟨p, hparse, -, -, -, -, hselectors, hsides, -⟩ := (compile_faithful _).2 hvalid
  refine ⟨hvalid, p, hparse, hselectors.trans ?_, hsides.trans ?_⟩
  · decide
  · decide

end Polyhedra
