import Polyhedra.Proofs.Notation.Arguments
import Polyhedra.Proofs.Notation.Faults

/-!
# Validation and reading agree

A notation is looked at twice, by two readers that share no code.  Validation goes from
the left and takes operators until there is none.  Reading a program takes the seed from
the end first, and then the operators in front of it; it knows the primitive ones only,
and looks at side counts before it looks at operators.

What a program can be read from is said without either order: lexemes that stand for
operations, and one that stands for a seed, with numbers that are in bounds
(`Program.Legible`).  Such lexemes are operators and a seed of the grammar, and in a
notation without aliases there are no others.

## Main results

* `Program.legible_of_parse`, `Program.exists_parse` — a program is read from legible
  lexemes, and from nothing else.
* `exists_parse_iff` — a text is read as a program just when it is valid and free of
  aliases.
-/

namespace Polyhedra

open Lexeme

/-! ## Lexemes of the grammar -/

theorem Operation.symbol_notMem_aliases (op : Operation) : op.symbol ∉ Alphabet.aliases := by
  cases op <;> simp [Operation.symbol, Alphabet.aliases]

theorem Seed.symbol_notMem_aliases (seed : Seed) : seed.symbol ∉ Alphabet.aliases := by
  cases seed <;> simp [Seed.symbol, Alphabet.aliases]

theorem Alphabet.notMem_aliases_of_isDigit {c : Char} (hc : c.isDigit = true) :
    c ∉ aliases := by
  have table : ∀ c ∈ aliases, c.isDigit = false := forall_mem_of_all (by decide)
  intro hmem
  have hnone := table c hmem
  rw [hc] at hnone
  exact Bool.noConfusion hnone

namespace Lexeme

variable {l : Lexeme}

/-- What stands for an operation is an operator of the grammar, if its number fits. -/
theorem isOperator_of_operation? {op : Operation} (hl : l.Proper) (h : l.operation? = some op)
    (hfits : l.Fits) : IsOperator l.text := by
  have hsymbol := symbol_of_operation? h
  have plain : Alphabet.isPlainOperator op.symbol = true → op.selector? = none →
      IsOperator l.text := by
    intro hplain hnone
    have hd := digits_eq_nil_of_operation? h hnone
    rw [← hsymbol] at hplain
    rw [Lexeme.text, hd]
    exact .plain hplain
  cases op with
  | kis sides =>
    have hselecting : Alphabet.isSelectingOperator l.symbol = true := by
      rw [hsymbol]
      rfl
    exact .selecting hselecting hl.digits hfits
  | _ => exact plain (by decide) rfl

/-- What stands for a seed is a seed of the grammar, if its side count is in bounds. -/
theorem isSeed_of_seed? {seed : Seed} (hl : l.Proper) (h : l.seed? = some seed)
    (hsides : ∀ n, seed.sides? = some n → minSeedSides ≤ n ∧ n ≤ maxSeedSides) :
    IsSeed l.text := by
  have hsymbol := symbol_of_seed? h
  have hcount := sides?_of_seed? h
  rw [Text.number?] at hcount
  by_cases hd : l.digits = []
  · rw [if_pos hd] at hcount
    have hfixed : Alphabet.isFixedSeed l.symbol = true := by
      rw [hsymbol]
      cases seed with
      | prism n => simp [Seed.sides?] at hcount
      | antiprism n => simp [Seed.sides?] at hcount
      | pyramid n => simp [Seed.sides?] at hcount
      | _ => decide
    rw [Lexeme.text, hd]
    exact .fixed hfixed
  · rw [if_neg hd] at hcount
    have hbounds := hsides l.digits.value hcount
    exact .family (isFamilySeed_of_digits h hd) hl.digits hd hbounds.1 hbounds.2

/-- A lexeme whose letter is no alias has none. -/
theorem notMem_aliases_of_mem (hl : l.Proper) (hsymbol : l.symbol ∉ Alphabet.aliases) {c : Char}
    (hc : c ∈ l.text) : c ∉ Alphabet.aliases := by
  cases List.mem_cons.1 hc with
  | inl hhead =>
    rw [hhead]
    exact hsymbol
  | inr hdigit => exact Alphabet.notMem_aliases_of_isDigit (hl.digits c hdigit)

end Lexeme

/-! ## Lexemes that can be read -/

namespace Program

variable {t : Text} {front : List Lexeme} {last : Lexeme}

/-- Lexemes that stand for operations and for a seed, with numbers that are in bounds. -/
structure Legible (front : List Lexeme) (last : Lexeme) (seed : Seed) : Prop where
  operators : ∀ l ∈ front, l.operation?.isSome = true ∧ l.Fits
  spells : last.seed? = some seed
  sides : ∀ n, seed.sides? = some n → minSeedSides ≤ n ∧ n ≤ maxSeedSides

/-- A program is read from lexemes that can be read, and there are no digits before them. -/
theorem legible_of_parse {p : Program} (h : parse t = .ok p) :
    ∃ front last, t.lex = ([], front ++ [last]) ∧ Legible front last p.seed := by
  obtain ⟨front, last, hlex⟩ := lex_of_parse h
  have hparts := (parse_eq_ok_iff hlex).1 h
  have hseed := readSeed_eq_ok_iff.1 hparts.2.2.1
  have hread := Token.ofLexemes_eq_ok_iff.1 hparts.2.2.2
  have hoperators : ∀ l ∈ front, l.operation?.isSome = true ∧ l.Fits := by
    intro l hl
    exact ⟨Option.isSome_iff_exists.2 (hread.1.exists_operation hl), hread.2 l hl⟩
  exact ⟨front, last, hlex, hoperators, hseed.1, hseed.2⟩

/-- Lexemes that can be read make a program. -/
theorem Legible.exists_parse {seed : Seed} (h : Legible front last seed)
    (hlex : t.lex = ([], front ++ [last])) : ∃ p, parse t = .ok p := by
  obtain ⟨ts, hts⟩ := Token.exists_ofLexemes (join front) 0 h.operators
  have hseed : readSeed t (join front).byteLength last = .ok seed :=
    readSeed_eq_ok_iff.2 ⟨h.spells, h.sides⟩
  let p : Program := ⟨t, seed, ⟨(join front).byteLength, t.byteLength⟩, ts⟩
  exact ⟨p, (parse_eq_ok_iff hlex).2 ⟨rfl, rfl, hseed, hts⟩⟩

/-- Lexemes that can be read make a notation of the grammar. -/
theorem Legible.isNotation {seed : Seed} (h : Legible front last seed)
    (hproper : ∀ l ∈ front ++ [last], l.Proper) : IsNotation (join (front ++ [last])) := by
  induction front with
  | nil =>
    have hseed := isSeed_of_seed? (hproper last (by simp)) h.spells h.sides
    have htext : join ([] ++ [last]) = last.text := by simp [join]
    rw [htext]
    exact .seed hseed
  | cons l ls ih =>
    have hl := h.operators l (by simp)
    have hop := isOperator_of_operation? (hproper l (by simp)) (Option.some_get hl.1).symm hl.2
    have hrest : Legible ls last seed :=
      ⟨fun m hm => h.operators m (List.mem_cons_of_mem l hm), h.spells, h.sides⟩
    have hnotation := ih hrest fun m hm => hproper m (List.mem_cons_of_mem l hm)
    have htext : join (l :: ls ++ [last]) = l.text ++ join (ls ++ [last]) := by simp [join]
    rw [htext]
    exact .operator hop hnotation

/-- None of the lexemes that can be read has an alias. -/
theorem Legible.notMem_aliases {seed : Seed} (h : Legible front last seed)
    (hproper : ∀ l ∈ front ++ [last], l.Proper) {c : Char} (hc : c ∈ join (front ++ [last])) :
    c ∉ Alphabet.aliases := by
  obtain ⟨l, hl, hmem⟩ := List.mem_flatMap.1 hc
  refine notMem_aliases_of_mem (hproper l hl) ?_ hmem
  cases List.mem_append.1 hl with
  | inl hfront =>
    have hop := (h.operators l hfront).1
    rw [symbol_of_operation? (Option.some_get hop).symm]
    exact Operation.symbol_notMem_aliases _
  | inr hlast =>
    rw [List.mem_singleton.1 hlast, symbol_of_seed? h.spells]
    exact Seed.symbol_notMem_aliases _

end Program

/-! ## Two readers -/

/--
A text is read as a program just when validation accepts it and no letter of it is an
alias.
-/
theorem exists_parse_iff (t : Text) :
    (∃ p, Program.parse t = .ok p) ↔
      t.validate = .ok () ∧ ∀ c ∈ Alphabet.aliases, c ∉ t := by
  rw [validate_eq_ok_iff_isNotation]
  constructor
  · intro h
    obtain ⟨p, hp⟩ := h
    obtain ⟨front, last, hlex, hlegible⟩ := Program.legible_of_parse hp
    have hproper := t.proper_of_mem_lex
    have hjoin := t.lex_join
    rw [hlex] at hproper hjoin
    rw [← hjoin]
    refine ⟨hlegible.isNotation hproper, ?_⟩
    intro c halias hmem
    exact hlegible.notMem_aliases hproper hmem halias
  · intro h
    exact parse_of_isNotation h.1 fun c hc halias => h.2 c halias hc

/-- Kis of the ambo of a prism is read as it is written; a truncation is valid, but is not read. -/
theorem exists_parse_kis_ambo_prism :
    (Text.validate ['k', '1', '2', 'a', 'P', '5'] = .ok () ∧
      ∃ p, Program.parse ['k', '1', '2', 'a', 'P', '5'] = .ok p) ∧
    Text.validate ['t', 'C'] = .ok () ∧ ¬ ∃ p, Program.parse ['t', 'C'] = .ok p := by
  have hvalid : Text.validate ['k', '1', '2', 'a', 'P', '5'] = .ok () := by decide
  have hprimitive : ∀ c ∈ Alphabet.aliases, c ∉ ['k', '1', '2', 'a', 'P', '5'] :=
    Alphabet.forall_mem_of_all (by decide)
  have hread := (exists_parse_iff ['k', '1', '2', 'a', 'P', '5']).2 ⟨hvalid, hprimitive⟩
  refine ⟨⟨hvalid, hread⟩, by decide, ?_⟩
  intro h
  have hplain := ((exists_parse_iff ['t', 'C']).1 h).2 't' (by decide)
  exact hplain (by decide)

end Polyhedra
