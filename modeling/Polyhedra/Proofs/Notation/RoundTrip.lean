import Polyhedra.Proofs.Notation.Agreement
import Polyhedra.Proofs.Notation.LeadingZeros
import Mathlib.Data.List.Forall2

/-!
# Printing and reading are inverse

A program is printed as the texts of its operations and that of its seed, with nothing
in between.  Digits belong to the letter in front of them, and so the print falls into
one lexeme for each operation and one for the seed; these are the lexemes that are read.

In the other direction the tokens of a program and its seed lie over the lexemes of the
notation (`Token.Covers`), one behind the other and without a gap (`Span.Tile`).  What a
lexeme stands for is seen from its text alone, wherever it is, and it is printed as it
was written, but for zeros in front of its number.

## Main results

* `Program.exists_parse_spelling` — what is printed is read as it was.
* `Program.tile_of_parse` — the spans of a program fill its notation.
* `Program.parse_token_slice`, `Program.parse_seed_slice` — the parts of a program are read
  from their slices.
* `parse_spelling_round_trip` — these results together.
-/

namespace Polyhedra

open Lexeme

/-! ## Spans one behind the other -/

namespace Span

/--
The spans fill the bytes from `start` up to `stop`: none is empty, and each begins where
the one before it ends.
-/
def Tile (stop : Nat) : Nat → List Span → Prop
  | start, [] => start = stop
  | start, s :: rest => s.start = start ∧ s.start < s.stop ∧ Tile stop s.stop rest

/-- Spans that fill two ranges, one behind the other, fill both. -/
theorem Tile.append {start mid stop : Nat} {spans behind : List Span} (h : Tile mid start spans)
    (hbehind : Tile stop mid behind) : Tile stop start (spans ++ behind) := by
  induction spans generalizing start with
  | nil =>
    have hstart : start = mid := h
    rw [hstart]
    exact hbehind
  | cons s rest ih => exact ⟨h.1, h.2.1, ih h.2.2⟩

theorem Tile.le {start stop : Nat} {spans : List Span} (h : Tile stop start spans) :
    start ≤ stop := by
  induction spans generalizing start with
  | nil => exact Nat.le_of_eq h
  | cons s rest ih =>
    have hstart := h.1
    have hfirst := h.2.1
    have hrest := ih h.2.2
    omega

/-- Each of the spans covers something within the range. -/
theorem Tile.bounds {start stop : Nat} {spans : List Span} (h : Tile stop start spans) {s : Span}
    (hs : s ∈ spans) : start ≤ s.start ∧ s.start < s.stop ∧ s.stop ≤ stop := by
  induction spans generalizing start with
  | nil => cases hs
  | cons first rest ih =>
    cases List.mem_cons.1 hs with
    | inl hhead =>
      subst hhead
      exact ⟨Nat.le_of_eq h.1.symm, h.2.1, h.2.2.le⟩
    | inr htail =>
      have hbounds := ih h.2.2 htail
      have hstart := h.1
      have hfirst := h.2.1
      omega

theorem Tile.singleton {start stop : Nat} (h : start < stop) : Tile stop start [⟨start, stop⟩] :=
  ⟨rfl, h, rfl⟩

end Span

namespace Token

/-- The token stands for the lexeme and lies over its text. -/
structure Covers (whole : Text) (l : Lexeme) (t : Token) : Prop where
  operation : l.operation? = some t.operation
  slice : t.span.slice whole = l.text

namespace Along

variable {start : Nat} {ls : List Lexeme} {ts : List Token}

theorem tile (h : Along start ls ts) :
    Span.Tile (start + (join ls).byteLength) start (ts.map Token.span) := by
  induction h with
  | nil => rfl
  | @cons start l ls t ts operation span rest ih =>
    have hwidth : start < start + l.width := Nat.lt_add_of_pos_right l.width_pos
    rw [byteLength_join_cons, ← Nat.add_assoc, List.map_cons, span]
    exact ⟨rfl, hwidth, ih⟩

/-- The tokens lie over their lexemes, whatever stands before and behind these. -/
theorem covers {before : Text} (h : Along before.byteLength ls ts) (after : Text) :
    List.Forall₂ (Covers (before ++ (join ls ++ after))) ls ts := by
  induction ls generalizing before ts with
  | nil =>
    cases h with
    | nil => exact .nil
  | cons l ls ih =>
    cases h with
    | @cons _ _ _ t ts operation span rest =>
      have hslice : t.span.slice (before ++ (l.text ++ (join ls ++ after))) = l.text := by
        rw [span]
        exact Span.slice_middle before l.text (join ls ++ after)
      have hstart : before.byteLength + l.width = (before ++ l.text).byteLength :=
        (Text.byteLength_append before l.text).symm
      rw [hstart] at rest
      have hrest := ih rest
      have hwhole : before ++ (join (l :: ls) ++ after) =
          before ++ (l.text ++ (join ls ++ after)) := by simp [join]
      rw [hwhole]
      rw [List.append_assoc] at hrest
      exact .cons ⟨operation, hslice⟩ hrest

end Along

/-- Each of the tokens has a lexeme of its own. -/
theorem exists_covers {whole : Text} {ls : List Lexeme} {ts : List Token}
    (h : List.Forall₂ (Covers whole) ls ts) {t : Token} (ht : t ∈ ts) :
    ∃ l ∈ ls, Covers whole l t := by
  induction h with
  | nil => cases ht
  | @cons l t' ls ts hcovers rest ih =>
    cases List.mem_cons.1 ht with
    | inl hhead =>
      subst hhead
      exact ⟨l, List.mem_cons_self, hcovers⟩
    | inr htail =>
      obtain ⟨l', hmem, hcovers'⟩ := ih htail
      exact ⟨l', List.mem_cons_of_mem l hmem, hcovers'⟩

end Token

theorem Lexeme.Proper.lex_text {l : Lexeme} (h : l.Proper) : l.text.lex = ([], [l]) := by
  have hproper : ∀ m ∈ [l], m.Proper := by
    intro m hm
    rw [List.mem_singleton.1 hm]
    exact h
  have hjoin : join [l] = l.text := by simp [join]
  rw [← hjoin]
  exact Lexeme.lex_join hproper

/-- The operation that a lexeme stands for is read from its text alone. -/
theorem Token.parse_text {l : Lexeme} {op : Operation} (hl : l.Proper)
    (hop : l.operation? = some op) (hfits : l.Fits) :
    parse 0 l.text = .ok [⟨op, ⟨0, l.width⟩⟩] := by
  have hread : ofLexeme l.text 0 l = .ok ⟨op, ⟨0, l.width⟩⟩ :=
    ofLexeme_eq_ok_iff.2 ⟨hop, by rw [Nat.zero_add], hfits⟩
  rw [parse, hl.lex_text]
  show ofLexemes l.text 0 [l] = _
  rw [ofLexemes, hread]
  rfl

/-! ## What is printed is read -/

/-- An operation with a selector of no more than 32 bits has a number that fits. -/
theorem Operation.fits_lexeme {op : Operation} (h : ∀ n, op = .kis (some n) → n ≤ maxNumber) :
    op.lexeme.Fits := by
  cases op with
  | kis sides =>
    cases sides with
    | none => exact Nat.zero_le maxNumber
    | some n =>
      show (Text.ofNat n).value ≤ maxNumber
      rw [Text.value_ofNat]
      exact h n rfl
  | _ => exact Nat.zero_le maxNumber

namespace Program

variable {t : Text} {p : Program} {ops : List Operation} {seed : Seed}

/-- What is printed can be read, if its numbers are in bounds. -/
theorem legible_spelling (hops : ∀ n, Operation.kis (some n) ∈ ops → n ≤ maxNumber)
    (hseed : ∀ n, seed.sides? = some n → minSeedSides ≤ n ∧ n ≤ maxSeedSides) :
    Legible (ops.map Operation.lexeme) seed.lexeme seed where
  operators := by
    intro l hl
    obtain ⟨op, hop, hlexeme⟩ := List.mem_map.1 hl
    subst hlexeme
    refine ⟨?_, Operation.fits_lexeme fun n hn => hops n (hn ▸ hop)⟩
    rw [op.operation?_lexeme]
    rfl
  spells := seed.seed?_lexeme
  sides := hseed

/-- A print falls into the lexemes of the operations and that of the seed. -/
theorem lex_spelling (ops : List Operation) (seed : Seed) :
    (spelling ops seed).lex = ([], ops.map Operation.lexeme ++ [seed.lexeme]) := by
  rw [spelling_eq_join]
  refine Lexeme.lex_join fun l hl => ?_
  cases List.mem_append.1 hl with
  | inl hop =>
    obtain ⟨op, -, hlexeme⟩ := List.mem_map.1 hop
    rw [← hlexeme]
    exact op.proper_lexeme
  | inr hlast =>
    rw [List.mem_singleton.1 hlast]
    exact seed.proper_lexeme

/-- What is printed is read as it was, if its numbers are in bounds. -/
theorem exists_parse_spelling (hops : ∀ n, Operation.kis (some n) ∈ ops → n ≤ maxNumber)
    (hseed : ∀ n, seed.sides? = some n → minSeedSides ≤ n ∧ n ≤ maxSeedSides) :
    ∃ p, parse (spelling ops seed) = .ok p ∧ p.operations.map Token.operation = ops ∧
      p.seed = seed := by
  obtain ⟨p, hp⟩ := (legible_spelling hops hseed).exists_parse (lex_spelling ops seed)
  obtain ⟨htext, ⟨front, last, hreads⟩, -⟩ := exists_reads hp
  exact ⟨p, hp, hreads.of_text_eq htext⟩

/-! ## What is read is printed -/

/-- The notation of a program with its lexemes, and the places of its parts in it. -/
structure Laid (p : Program) (front : List Lexeme) (last : Lexeme) : Prop
    extends p.Reads front last, Legible front last p.seed where
  seedSpan : p.seedSpan = ⟨(join front).byteLength, (join front).byteLength + last.width⟩

theorem exists_laid (h : parse t = .ok p) : p.text = t ∧ ∃ front last, p.Laid front last := by
  obtain ⟨front, last, hlex, hlegible⟩ := legible_of_parse h
  have hparts := (parse_eq_ok_iff hlex).1 h
  have hproper := t.proper_of_mem_lex
  have hjoin := t.lex_join
  rw [hlex] at hproper hjoin
  have htext : join (front ++ [last]) = t := hjoin
  have hlength := Lexeme.byteLength_join_concat front last
  rw [htext] at hlength
  refine ⟨hparts.1, front, last, ?_⟩
  exact {
    proper := hproper
    text := hparts.1.trans htext.symm
    operations := (Token.ofLexemes_eq_ok_iff.1 hparts.2.2.2).1
    seed := hlegible.spells
    seedStart := by rw [hparts.2.1]
    operators := hlegible.operators
    spells := hlegible.spells
    sides := hlegible.sides
    seedSpan := by rw [hparts.2.1, hlength] }

namespace Laid

variable {front : List Lexeme} {last : Lexeme} (h : p.Laid front last)
include h

theorem text_eq : p.text = join front ++ last.text := by
  rw [h.text, join_append]
  simp [join]

theorem covers : List.Forall₂ (Token.Covers p.text) front p.operations := by
  have halong : Token.Along (Text.byteLength []) front p.operations := h.operations
  have hcovers := halong.covers last.text
  rw [List.nil_append, ← h.text_eq] at hcovers
  exact hcovers

theorem slice_seedSpan : p.seedSpan.slice p.text = last.text := by
  have hmiddle := Span.slice_middle (join front) last.text []
  rw [List.append_nil, ← h.text_eq] at hmiddle
  rw [h.seedSpan]
  exact hmiddle

end Laid

/-- The spans of the operations and that of the seed fill the notation. -/
theorem tile_of_parse (h : parse t = .ok p) :
    Span.Tile t.byteLength 0 (p.operations.map Token.span ++ [p.seedSpan]) := by
  obtain ⟨htext, front, last, hlaid⟩ := exists_laid h
  have hoperations := hlaid.operations.tile
  rw [Nat.zero_add] at hoperations
  have hlength : t.byteLength = (join front).byteLength + last.width := by
    rw [← htext, hlaid.text_eq, Text.byteLength_append]
    rfl
  rw [hlaid.seedSpan, hlength]
  exact hoperations.append (.singleton (Nat.lt_add_of_pos_right last.width_pos))

/-- The operation of a token is read from its slice. -/
theorem parse_token_slice (h : parse t = .ok p) {tok : Token} (htok : tok ∈ p.operations) :
    Token.parse 0 (tok.span.slice t) =
      .ok [⟨tok.operation, ⟨0, (tok.span.slice t).byteLength⟩⟩] := by
  obtain ⟨htext, front, last, hlaid⟩ := exists_laid h
  obtain ⟨l, hl, hcovers⟩ := Token.exists_covers hlaid.covers htok
  have hproper := hlaid.proper l (List.mem_append_left _ hl)
  rw [← htext, hcovers.slice]
  exact Token.parse_text hproper hcovers.operation (hlaid.operators l hl).2

/-- The seed is read from its slice. -/
theorem parse_seed_slice (h : parse t = .ok p) :
    parse (p.seedSpan.slice t) =
      .ok ⟨p.seedSpan.slice t, p.seed, ⟨0, (p.seedSpan.slice t).byteLength⟩, []⟩ := by
  obtain ⟨htext, front, last, hlaid⟩ := exists_laid h
  have hproper := hlaid.proper last (by simp)
  have hlex : last.text.lex = ([], [] ++ [last]) := hproper.lex_text
  have hseed : readSeed last.text 0 last = .ok p.seed :=
    readSeed_eq_ok_iff.2 ⟨hlaid.spells, hlaid.sides⟩
  rw [← htext, hlaid.slice_seedSpan]
  exact (parse_eq_ok_iff hlex).2 ⟨rfl, rfl, hseed, rfl⟩

/-- A program is printed as it was written just when no number has leading zeros. -/
theorem spelling_eq_iff (h : parse t = .ok p) :
    spelling (p.operations.map Token.operation) p.seed = t ↔
      ∀ l ∈ t.lex.2, l.digits.isPadded = false := by
  obtain ⟨htext, ⟨front, last, hreads⟩, -⟩ := exists_reads h
  rw [hreads.spelling_eq, ← htext, hreads.terse_eq_self_iff, hreads.terse_numbers_iff,
    hreads.lex_text]

end Program

/--
Operations with selectors of 32 bits, or without, and a seed with a side count in bounds, or
without, are read from their texts put together.

What is read from a text fills it: the spans of the operations and that of the seed are
not empty, and each begins where the one before it ends, from the first byte of the text to
the last.  Each operation and the seed are what is read from their slice alone.  They
are printed as they were written just when no number has a zero in front of further digits.
-/
theorem parse_spelling_round_trip :
    (∀ (ops : List Operation) (seed : Seed),
      (∀ n, Operation.kis (some n) ∈ ops → n < UInt32.size) →
      (∀ n, seed.sides? = some n → 3 ≤ n ∧ n ≤ 10000) →
      ∃ p, Program.parse (spelling ops seed) = .ok p ∧
        p.operations.map Token.operation = ops ∧ p.seed = seed) ∧
    ∀ (t : Text) (p : Program), Program.parse t = .ok p →
      Span.Tile t.byteLength 0 (p.operations.map Token.span ++ [p.seedSpan]) ∧
      (∀ tok ∈ p.operations, Token.parse 0 (tok.span.slice t) =
        .ok [⟨tok.operation, ⟨0, (tok.span.slice t).byteLength⟩⟩]) ∧
      Program.parse (p.seedSpan.slice t) =
        .ok ⟨p.seedSpan.slice t, p.seed, ⟨0, (p.seedSpan.slice t).byteLength⟩, []⟩ ∧
      (spelling (p.operations.map Token.operation) p.seed = t ↔
        ∀ l ∈ t.lex.2, l.digits.isPadded = false) := by
  constructor
  · intro ops seed hops hseed
    exact Program.exists_parse_spelling (fun n hn => Nat.le_of_lt_succ (hops n hn)) hseed
  · intro t p h
    refine ⟨Program.tile_of_parse h, ?_, Program.parse_seed_slice h, Program.spelling_eq_iff h⟩
    intro tok htok
    exact Program.parse_token_slice h htok

/-- The dual of a kis of a prism is read as it is printed; leading zeros are not printed. -/
theorem parse_spelling_dual_kis_prism :
    (∃ p, Program.parse ['d', 'k', '1', '2', 'P', '5'] = .ok p ∧
      p.operations.map Token.operation = [.dual, .kis (some 12)] ∧ p.seed = .prism 5) ∧
    ∃ p, Program.parse ['d', 'k', '0', '1', '2', 'P', '5'] = .ok p ∧
      Span.Tile 7 0 [⟨0, 1⟩, ⟨1, 5⟩, p.seedSpan] ∧
      spelling (p.operations.map Token.operation) p.seed ≠ ['d', 'k', '0', '1', '2', 'P', '5'] := by
  have hselector :
      ∀ n, Operation.kis (some n) ∈ [Operation.dual, .kis (some 12)] → n < UInt32.size := by
    intro n hn
    have htwelve : n = 12 := by simpa using hn
    rw [htwelve]
    decide
  have hsides : ∀ n, (Seed.prism 5).sides? = some n → 3 ≤ n ∧ n ≤ 10000 := by
    intro n hn
    have hfive : 5 = n := Option.some.inj hn
    rw [← hfive]
    decide
  have hprinted := parse_spelling_round_trip.1 [.dual, .kis (some 12)] (.prism 5) hselector hsides
  let padded : Program :=
    ⟨['d', 'k', '0', '1', '2', 'P', '5'], .prism 5, ⟨5, 7⟩,
      [⟨.dual, ⟨0, 1⟩⟩, ⟨.kis (some 12), ⟨1, 5⟩⟩]⟩
  have hread : Program.parse ['d', 'k', '0', '1', '2', 'P', '5'] = .ok padded := by decide
  have hparts := parse_spelling_round_trip.2 _ padded hread
  refine ⟨hprinted, padded, hread, hparts.1, ?_⟩
  intro hprint
  have hzeros := hparts.2.2.2.1 hprint ⟨'k', ['0', '1', '2']⟩ (by decide)
  exact absurd hzeros (by decide)

end Polyhedra
