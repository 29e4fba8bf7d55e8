import Polyhedra.Proofs.Notation.LeadingZeros

/-!
# Platonic solids in disguise

The prism with four sides is a cube, the antiprism with three an octahedron, and
the pyramid with three a tetrahedron.  Reduction knows them by their notation,
which is two characters at the end of the text, while the seed of a program is
the number behind the letter.  The two are at odds where the number is written
with leading zeros: then nothing is collapsed, and the program has the prism, the
antiprism or the pyramid for its seed.

A letter in front of a canonical rest leaves the seed of a family alone, but for
ambo, which makes an antiprism of a pyramid and keeps its side count
(`EndsInFamily.push`).  So a program has a seed in disguise just when the
notation ends in one that was not recognized.

## Main results

* `IsNotation.endsInFamily_canonical` — the seed of a family stays, unless it is
  recognized.
* `IsNotation.degenerate_iff` — which seeds are recognized.
* `isSome_platonic?_compile_iff` — which notations lead to a seed in disguise.
-/

namespace Polyhedra

/-- The Platonic solid that a member of a family is, if it is one. -/
def Seed.platonic? : Seed → Option Seed
  | .prism 4 => some .cube
  | .antiprism 3 => some .octahedron
  | .pyramid 3 => some .tetrahedron
  | _ => none

/-- The seed at the end of a text, as it is written there. -/
def Text.writtenSeed? (t : Text) : Option Seed := t.lex.2.getLast?.bind Lexeme.seed?

/-! ## The end of a text -/

theorem Lexeme.lex_append_cons {c : Char} (hc : c.isDigit = false) {ds : Text}
    (hds : ds.AllDigits) (front : Text) :
    Text.lex (front ++ c :: ds) = (front.lex.1, front.lex.2 ++ [⟨c, ds⟩]) := by
  have hlex := lex_letter_digits hc hds []
  rw [List.append_nil] at hlex
  rw [Text.lex_append (Text.noDigitFirst_cons.2 hc), hlex]
  simp

theorem Text.writtenSeed?_append {c : Char} (hc : c.isDigit = false) {ds : Text}
    (hds : ds.AllDigits) (front : Text) :
    Text.writtenSeed? (front ++ c :: ds) = Lexeme.seed? ⟨c, ds⟩ := by
  rw [writtenSeed?, Lexeme.lex_append_cons hc hds, List.getLast?_concat]
  rfl

/-- Letters of families, among them that of antiprisms if that of pyramids is. -/
structure FamilyLetters (letters : List Char) : Prop where
  family : ∀ c ∈ letters, Alphabet.isFamilySeed c = true
  ambo : 'Y' ∈ letters → 'A' ∈ letters

theorem FamilyLetters.notMem {letters : List Char} (h : FamilyLetters letters) {c : Char}
    (hc : Alphabet.isFamilySeed c = false) : c ∉ letters := fun hmem =>
  Bool.noConfusion (hc.symm.trans (h.family c hmem))

/-- The text ends in one of the letters with the digits behind it. -/
def Text.EndsInFamily (t : Text) (letters : List Char) (ds : Text) : Prop :=
  ∃ front, ∃ c ∈ letters, t = front ++ c :: ds

namespace Text.EndsInFamily

variable {letters : List Char} {ds es t : Text} {c : Char}

protected theorem cons (h : t.EndsInFamily letters ds) (c : Char) :
    EndsInFamily (c :: t) letters ds := by
  obtain ⟨front, l, hl, ht⟩ := h
  exact ⟨c :: front, l, hl, by rw [ht, List.cons_append]⟩

protected theorem append (h : t.EndsInFamily letters ds) (s : Text) :
    EndsInFamily (s ++ t) letters ds := by
  obtain ⟨front, l, hl, ht⟩ := h
  exact ⟨s ++ front, l, hl, by rw [ht, List.append_assoc]⟩

theorem of_cons (hc : c ∉ letters) (h : EndsInFamily (c :: t) letters ds) :
    t.EndsInFamily letters ds := by
  obtain ⟨front, l, hl, ht⟩ := h
  cases front with
  | nil => exact absurd ((List.cons.inj ht).1 ▸ hl) hc
  | cons b front => exact ⟨front, l, hl, (List.cons.inj ht).2⟩

theorem of_append {s : Text} (hs : ∀ c ∈ s, c ∉ letters)
    (h : EndsInFamily (s ++ t) letters ds) : t.EndsInFamily letters ds := by
  induction s with
  | nil => exact h
  | cons c s ih =>
    rw [List.forall_mem_cons] at hs
    exact ih hs.2 (h.of_cons hs.1)

/-! ## Letters in front of a canonical rest -/

variable (hl : FamilyLetters letters)
include hl

/-- The end lies behind a letter that is not of a family. -/
private theorem behind (hc : Alphabet.isFamilySeed c = false)
    (h : EndsInFamily (c :: t) letters ds) : t.EndsInFamily letters ds :=
  h.of_cons (hl.notMem hc)

protected theorem pushDual (h : t.EndsInFamily letters ds) :
    (pushDual t).EndsInFamily letters ds := by
  unfold Text.pushDual
  split
  · exact h.behind hl (by decide)
  · exact h
  all_goals first | exact (h.behind hl (by decide)).cons _ | exact h.cons _

/-- Ambo makes an antiprism of a pyramid, with the same digits behind the letter. -/
protected theorem pushAmbo (h : t.EndsInFamily letters ds) :
    (pushAmbo t).EndsInFamily letters ds := by
  have plain : ∀ t : Text, t.EndsInFamily letters ds →
      (pushAmboPlain t).EndsInFamily letters ds := by
    intro t h
    unfold pushAmboPlain
    split
    · obtain ⟨front, c, hc, ht⟩ := h
      cases front with
      | nil =>
        obtain ⟨rfl, rfl⟩ := List.cons.inj ht
        exact ⟨[], 'A', hl.ambo hc, rfl⟩
      | cons b front =>
        exact ⟨'A' :: front, c, hc, congrArg ('A' :: ·) (List.cons.inj ht).2⟩
    · exact (h.behind hl (by decide)).cons _
    · exact ((h.behind hl (by decide)).cons _).cons _
    · exact ((h.behind hl (by decide)).cons _).cons _
    · exact h.cons _
  unfold Text.pushAmbo
  split
  · exact plain _ (h.behind hl (by decide))
  · exact plain _ h

protected theorem pushGyro (h : t.EndsInFamily letters ds) :
    (pushGyro t).EndsInFamily letters ds := by
  have plain : ∀ t : Text, t.EndsInFamily letters ds →
      (pushGyroPlain t).EndsInFamily letters ds := by
    intro t h
    unfold pushGyroPlain
    split
    · exact (h.behind hl (by decide)).cons _
    · exact ((h.behind hl (by decide)).cons _).cons _
    · exact ((h.behind hl (by decide)).cons _).cons _
    · exact h.cons _
  unfold Text.pushGyro
  split
  · exact plain _ (h.behind hl (by decide))
  · exact plain _ h

protected theorem pushJoin (h : t.EndsInFamily letters ds) :
    (pushJoin t).EndsInFamily letters ds :=
  ((h.pushDual hl).pushAmbo hl).pushDual hl

protected theorem pushTruncate (hes : es.AllDigits) (hfirst : t.NoDigitFirst)
    (h : t.EndsInFamily letters ds) : (pushTruncate (es ++ t)).EndsInFamily letters ds := by
  rw [Text.pushTruncate, takeWhile_digits_append hes hfirst, dropWhile_digits_append hes hfirst]
  exact (((h.pushDual hl).append es).cons 'k').pushDual hl

/-- An operator in front leaves the end of a family as it is, but for the letter of a pyramid. -/
protected theorem push (hc : Alphabet.isPlainOperator c = true) (ht : t.Settled)
    (h : t.EndsInFamily letters ds) : (push c t).EndsInFamily letters ds := by
  have truncate : ∀ t : Text, t.Settled → t.EndsInFamily letters ds →
      (pushTruncate t).EndsInFamily letters ds :=
    fun t ht h => h.pushTruncate hl allDigits_nil ht.noDigitFirst
  unfold Text.push
  split
  · exact h.pushDual hl
  · exact h.pushAmbo hl
  · exact h.pushGyro hl
  · exact h.pushJoin hl
  · exact ((h.pushDual hl).pushGyro hl).pushDual hl
  · exact truncate t ht h
  · exact (h.pushAmbo hl).pushAmbo hl
  · exact truncate _ (settled_pushAmbo t) (h.pushAmbo hl)
  · exact (h.pushJoin hl).pushJoin hl
  · exact (h.pushJoin hl).cons 'k'
  · exact absurd hc (by decide)
  · exact absurd hc (by decide)
  · exact absurd hc (by decide)
  · exact h.cons _

end Text.EndsInFamily

open Text

/-! ## The end of the canonical form -/

/-- The seed of a family stays at the end of the canonical form, unless it is recognized. -/
theorem IsNotation.endsInFamily_canonical {letters : List Char} (hl : FamilyLetters letters)
    {ds t : Text} (h : IsNotation t) (hend : t.EndsInFamily letters ds) (hdeg : ¬ t.Degenerate) :
    t.canonical.EndsInFamily letters ds := by
  induction h with
  | seed isSeed =>
    cases isSeed with
    | @fixed c letter =>
      have hnone := hend.of_cons (hl.notMem (Alphabet.of_isFixedSeed letter).2.2.1)
      obtain ⟨front, d, -, hnil⟩ := hnone
      exact absurd hnil (by simp)
    | @family c digits letter all_digits =>
      have hdigits : digits.canonical = digits := by
        simpa [canonical] using canonical_digits all_digits []
      rw [canonical_cons, hdigits, push_family letter hdeg]
      exact hend
  | @operator o s isOperator rest ih =>
    have hs := rest.settled_canonical
    rw [rest.degenerate_append] at hdeg
    cases isOperator with
    | plain letter =>
      have hrest := hend.of_cons (hl.notMem (Alphabet.of_isPlainOperator letter).2.2.1)
      exact (ih hrest hdeg).push hl letter hs
    | @selecting c digits letter all_digits =>
      have hletters : ∀ d ∈ c :: digits, d ∉ letters := by
        intro d hd hmem
        have hfamily := hl.family d hmem
        rcases List.mem_cons.1 hd with hd | hd
        · rw [hd, (Alphabet.of_isSelectingOperator letter).2.2.1] at hfamily
          exact Bool.noConfusion hfamily
        · have hdigit := (Alphabet.of_isFamilySeed hfamily).2.2.2
          rw [all_digits d hd] at hdigit
          exact Bool.noConfusion hdigit
      have hrest := ih (hend.of_append hletters) hdeg
      rw [List.cons_append, canonical_cons, canonical_digits all_digits]
      rcases Alphabet.eq_of_isSelectingOperator letter with hkis | htruncate
      · subst hkis
        exact (hrest.append digits).cons 'k'
      · subst htruncate
        exact hrest.pushTruncate hl all_digits hs.noDigitFirst

/-! ## Seeds as they are written -/

/-- Digits are those that are written for a number just when they have no leading zeros. -/
theorem Text.eq_ofNat_iff {ds : Text} (hds : ds.AllDigits) (hne : ds ≠ []) {n : Nat} :
    ds = ofNat n ↔ ds.value = n ∧ ds.isPadded = false := by
  have hvalue := ofNat_value hds hne
  rw [← dropZeros_eq_self_iff, ← hvalue]
  constructor
  · intro heq
    have hn : ds.value = n := by rw [heq, value_ofNat]
    exact ⟨hn, by rw [hn, ← heq]⟩
  · intro h
    rw [← h.1, h.2]

namespace Seed

theorem isSome_platonic?_iff {s : Seed} :
    s.platonic?.isSome = true ↔ s = .prism 4 ∨ s = .antiprism 3 ∨ s = .pyramid 3 := by
  fun_cases platonic? s <;> simp_all

/-- Antiprisms and pyramids are Platonic solids when they have three sides. -/
theorem isSome_platonic?_of_symbol {l : Char} (hl : l ∈ ['A', 'Y']) {n : Nat} {s : Seed}
    (h : ofSymbol? l (some n) = some s) : s.platonic?.isSome = true ↔ n = 3 := by
  rw [List.mem_cons, List.mem_singleton] at hl
  rcases hl with hl | hl
  all_goals
    subst hl
    rw [← Option.some.inj h, isSome_platonic?_iff]
    simp

theorem platonic?_eq_none_of_sides? {s : Seed} (h : s.sides? = none) : s.platonic? = none := by
  cases s with
  | prism n => simp [sides?] at h
  | antiprism n => simp [sides?] at h
  | pyramid n => simp [sides?] at h
  | _ => rfl

end Seed

/-- A notation ends in the letter of a Platonic solid, or in that of a family with a side count. -/
theorem IsNotation.exists_end {t : Text} (h : IsNotation t) :
    ∃ front c ds, t = front ++ c :: ds ∧
      (Alphabet.isFixedSeed c = true ∧ ds = [] ∨ Alphabet.isFamilySeed c = true ∧ IsSides ds) := by
  induction h with
  | seed isSeed =>
    cases isSeed with
    | @fixed c letter => exact ⟨[], c, [], rfl, .inl ⟨letter, rfl⟩⟩
    | @family c ds letter all_digits ne_nil le_value value_le =>
      exact ⟨[], c, ds, rfl, .inr ⟨letter, all_digits, ne_nil, le_value, value_le⟩⟩
  | @operator o s isOperator rest ih =>
    obtain ⟨front, c, ds, hs, hend⟩ := ih
    exact ⟨o ++ front, c, ds, by rw [hs, List.append_assoc], hend⟩

namespace Text

variable {front ds : Text} {c : Char}

theorem writtenSeed?_append_family (hc : Alphabet.isFamilySeed c = true) (hds : IsSides ds)
    (front : Text) : writtenSeed? (front ++ c :: ds) = Seed.ofSymbol? c (some ds.value) := by
  rw [writtenSeed?_append (Alphabet.of_isFamilySeed hc).2.2.2 hds.all_digits, Lexeme.seed?]
  simp only
  rw [if_neg hds.ne_nil]

/-- A seed that needs a side count, as it stands at the end of a notation. -/
structure FamilyEnd (front : Text) (c : Char) (ds : Text) : Prop where
  letter : Alphabet.isFamilySeed c = true
  sides : IsSides ds
  isNotation : IsNotation (front ++ c :: ds)

namespace FamilyEnd

variable (h : FamilyEnd front c ds)
include h

theorem not_isDigit : c.isDigit = false := (Alphabet.of_isFamilySeed h.letter).2.2.2

theorem sideCount_eq : (numbers (front ++ c :: ds)).sideCount = ds := by
  rw [sideCount_append_cons h.not_isDigit, numbers_digits h.sides.all_digits]

theorem writtenSeed?_eq :
    writtenSeed? (front ++ c :: ds) = Seed.ofSymbol? c (some ds.value) :=
  writtenSeed?_append_family h.letter h.sides front

theorem exists_writtenSeed? : ∃ written, writtenSeed? (front ++ c :: ds) = some written := by
  rw [h.writtenSeed?_eq]
  rcases Alphabet.eq_of_isFamilySeed h.letter with hc | hc | hc <;> exact hc ▸ ⟨_, rfl⟩

/-- The seeds that the rules for degenerate seeds look for. -/
theorem degenerate_iff : Degenerate (front ++ c :: ds) ↔
    c = 'P' ∧ ds = ofNat 4 ∨ c = 'A' ∧ ds = ofNat 3 ∨ c = 'Y' ∧ ds = ofNat 3 := by
  have hfour : ofNat 4 = ['4'] := by decide
  have hthree : ofNat 3 = ['3'] := by decide
  have pair : ∀ {l d : Char}, l.isDigit = false → ([l, d] <:+ c :: ds ↔ c = l ∧ ds = [d]) := by
    intro l d hl
    constructor
    · intro hsuffix
      obtain ⟨hc, hds⟩ := pair_suffix_digits h.sides.all_digits hl hsuffix
      exact ⟨hc.symm, hds⟩
    · intro heq
      rw [heq.1, heq.2]
  rw [IsNotation.degenerate_append (.family h.letter h.sides), Degenerate, pair (by decide),
    pair (by decide), pair (by decide), hfour, hthree]

/-- Just the seeds in disguise are recognized whose side count is written without leading zeros. -/
theorem degenerate_iff_platonic? {written : Seed}
    (hwritten : writtenSeed? (front ++ c :: ds) = some written) :
    Degenerate (front ++ c :: ds) ↔ written.platonic?.isSome = true ∧ ds.isPadded = false := by
  rw [h.writtenSeed?_eq] at hwritten
  rw [h.degenerate_iff, eq_ofNat_iff h.sides.all_digits h.sides.ne_nil,
    eq_ofNat_iff h.sides.all_digits h.sides.ne_nil, Seed.isSome_platonic?_iff]
  rcases Alphabet.eq_of_isFamilySeed h.letter with hc | hc | hc
  all_goals
    subst hc
    rw [← Option.some.inj hwritten]
    simp

/-- A seed that is not recognized keeps its side count, and its letter among those of its kind. -/
theorem exists_ofSymbol?_canonical {letters : List Char} (hletters : FamilyLetters letters)
    (hc : c ∈ letters) (hdeg : ¬ Degenerate (front ++ c :: ds)) :
    ∃ l ∈ letters, (canonical (front ++ c :: ds)).writtenSeed? =
      Seed.ofSymbol? l (some ds.value) := by
  have hend := h.isNotation.endsInFamily_canonical hletters ⟨front, c, hc, rfl⟩ hdeg
  obtain ⟨front', l, hl, hcanonical⟩ := hend
  refine ⟨l, hl, ?_⟩
  rw [hcanonical, writtenSeed?_append_family (hletters.family l hl) h.sides]

/-- A seed that is not recognized stays in disguise, or out of it. -/
theorem exists_writtenSeed?_canonical {written : Seed}
    (hwritten : writtenSeed? (front ++ c :: ds) = some written)
    (hdeg : ¬ Degenerate (front ++ c :: ds)) :
    ∃ seed, (canonical (front ++ c :: ds)).writtenSeed? = some seed ∧
      (seed.platonic?.isSome = true ↔ written.platonic?.isSome = true) := by
  have hprism : FamilyLetters ['P'] := ⟨Alphabet.forall_mem_of_all (by decide), by decide⟩
  have hambo : FamilyLetters ['A', 'Y'] := ⟨Alphabet.forall_mem_of_all (by decide), by decide⟩
  have hthree : c ∈ ['A', 'Y'] → ∃ seed,
      (canonical (front ++ c :: ds)).writtenSeed? = some seed ∧
        (seed.platonic?.isSome = true ↔ written.platonic?.isSome = true) := by
    intro hc
    obtain ⟨l, hl, hseed⟩ := h.exists_ofSymbol?_canonical hambo hc hdeg
    have hfound : ∃ seed, Seed.ofSymbol? l (some ds.value) = some seed := by
      rw [List.mem_cons, List.mem_singleton] at hl
      rcases hl with hl | hl <;> exact hl ▸ ⟨_, rfl⟩
    obtain ⟨seed, hfound⟩ := hfound
    rw [h.writtenSeed?_eq] at hwritten
    exact ⟨seed, hseed.trans hfound, (Seed.isSome_platonic?_of_symbol hl hfound).trans
      (Seed.isSome_platonic?_of_symbol hc hwritten).symm⟩
  rcases Alphabet.eq_of_isFamilySeed h.letter with hc | hc | hc
  · subst hc
    obtain ⟨l, hl, hseed⟩ := h.exists_ofSymbol?_canonical hprism (by decide) hdeg
    rw [List.mem_singleton.1 hl, ← h.writtenSeed?_eq, hwritten] at hseed
    exact ⟨written, hseed, Iff.rfl⟩
  · exact hthree (by simp [hc])
  · exact hthree (by simp [hc])

/-- A seed that is recognized might as well be written as the Platonic solid that it is. -/
theorem reduce_platonic? {written solid : Seed}
    (hwritten : writtenSeed? (front ++ c :: ds) = some written)
    (hsolid : written.platonic? = some solid) (hpadded : ds.isPadded = false) :
    c :: ds = written.text ∧ validate (front ++ solid.text) = .ok () ∧
      (reduce (front ++ c :: ds)).output = (reduce (front ++ solid.text)).output := by
  have collapse : ∀ {p q : Text}, Rule.suffix p q ∈ Rule.table → c :: ds = p →
      validate (front ++ q) = .ok () ∧
        (reduce (front ++ c :: ds)).output = (reduce (front ++ q)).output := by
    intro p q hrule heq
    have hstep : (Rule.suffix p q).Replaces (front ++ c :: ds) (front ++ q) := by
      rw [heq]
      exact .suffix p q front
    obtain ⟨haccepted, hcanonical⟩ := h.isNotation.of_replaces hrule hstep
    rw [h.isNotation.output_reduce_eq_canonical, haccepted.output_reduce_eq_canonical, hcanonical]
    exact ⟨validate_eq_ok_iff_isNotation.2 haccepted, rfl⟩
  have hdeg := (h.degenerate_iff_platonic? hwritten).2 ⟨by rw [hsolid]; rfl, hpadded⟩
  rw [h.writtenSeed?_eq] at hwritten
  have hvalue : ∀ n, ds = ofNat n → ds.value = n := fun n heq => by rw [heq, value_ofNat]
  rcases h.degenerate_iff.1 hdeg with ⟨hc, hds⟩ | ⟨hc, hds⟩ | ⟨hc, hds⟩
  all_goals
    subst hc
    rw [hvalue _ hds] at hwritten
    have hwritten := Option.some.inj hwritten
    subst hwritten
    have hsolid := Option.some.inj hsolid
    subst hsolid
    refine ⟨by rw [hds]; rfl, ?_⟩
    exact collapse (by decide) (congrArg (_ :: ·) hds)

end FamilyEnd

end Text

/-- The letter of a Platonic solid is no disguise, and has no side count. -/
theorem exists_writtenSeed?_fixed {c : Char} (hc : Alphabet.isFixedSeed c = true) (front : Text) :
    ∃ written, Text.writtenSeed? (front ++ [c]) = some written ∧ written.platonic? = none ∧
      (numbers (front ++ [c])).sideCount = [] := by
  have table : ∀ c ∈ Alphabet.fixedSeeds, (Seed.ofSymbol? c none).any (·.platonic?.isNone) = true :=
    Alphabet.forall_mem_of_all (by decide)
  have hmem : c ∈ Alphabet.fixedSeeds := by simpa [Alphabet.isFixedSeed] using hc
  have hdigit := (Alphabet.of_isFixedSeed hc).2.2.2
  obtain ⟨written, hwritten, hnone⟩ := (Option.any_eq_true _ _).1 (table c hmem)
  have hcount : (numbers (front ++ [c])).sideCount = [] := by
    rw [sideCount_append_cons hdigit, numbers_digits allDigits_nil]
  exact ⟨written, (writtenSeed?_append hdigit allDigits_nil front).trans hwritten,
    Option.isNone_iff_eq_none.1 hnone, hcount⟩

/-! ## Programs -/

/-- The seed of a program is the one that its notation ends in. -/
theorem Program.Reads.writtenSeed?_eq {p : Program} {front : List Lexeme} {last : Lexeme}
    (h : p.Reads front last) : p.text.writtenSeed? = some p.seed := by
  rw [Text.writtenSeed?, h.lex_text, List.getLast?_concat]
  exact h.seed

/-- What compiles has the seed of its canonical form, with the side count of the input. -/
theorem seed_of_compile {input : Text} {c : Compiled} (hc : input.compile = .ok c) :
    IsNotation input ∧ c.text = input.reduce.output ∧
      input.canonical.writtenSeed? = some c.program.seed ∧
      c.program.seed.sides? =
        if input.Degenerate then none else input.numbers.sideCount.number? := by
  have hvalid := validate_of_compile hc
  have haccepted := validate_eq_ok_iff_isNotation.1 hvalid
  obtain ⟨p, hcompile, hparse⟩ := compile_of_validate hvalid
  obtain rfl := Except.ok.inj (hcompile.symm.trans hc)
  obtain ⟨htext, ⟨front, last, hreads⟩, -⟩ := Program.exists_reads hparse
  have hseed := hreads.writtenSeed?_eq
  have hsides := hreads.sides?_eq
  rw [htext, haccepted.output_reduce_eq_canonical] at hseed hsides
  rw [haccepted.numbers_canonical] at hsides
  refine ⟨haccepted, rfl, hseed, hsides.trans ?_⟩
  split <;> rfl

/--
The seed of a program is a Platonic solid in disguise just when the notation that
was compiled ends in one with leading zeros in its side count.  Without leading
zeros it might as well have been written as the Platonic solid.
-/
theorem isSome_platonic?_compile_iff {input : Text} {c : Compiled} (hc : input.compile = .ok c) :
    ∃ written, input.writtenSeed? = some written ∧
      (c.program.seed.platonic?.isSome = true ↔
        written.platonic?.isSome = true ∧ input.numbers.sideCount.isPadded = true) ∧
      ∀ solid, written.platonic? = some solid → input.numbers.sideCount.isPadded = false →
        ∃ front, input = front ++ written.text ∧ Text.validate (front ++ solid.text) = .ok () ∧
          c.text = (Text.reduce (front ++ solid.text)).output := by
  obtain ⟨haccepted, htext, hseed, hsides⟩ := seed_of_compile hc
  rw [htext]
  obtain ⟨front, l, ds, hinput, hend⟩ := haccepted.exists_end
  subst hinput
  rcases hend with ⟨hl, hds⟩ | ⟨hl, hds⟩
  · subst hds
    obtain ⟨written, hwritten, hplatonic, hcount⟩ := exists_writtenSeed?_fixed hl front
    have hbare : c.program.seed.sides? = none := by
      rw [hsides, hcount]
      exact ite_self none
    refine ⟨written, hwritten, ?_, fun solid hsolid => ?_⟩
    · simp [Seed.platonic?_eq_none_of_sides? hbare, hplatonic]
    · rw [hplatonic] at hsolid
      cases hsolid
  · have hfamily : FamilyEnd front l ds := ⟨hl, hds, haccepted⟩
    obtain ⟨written, hwritten⟩ := hfamily.exists_writtenSeed?
    have hdeg := hfamily.degenerate_iff_platonic? hwritten
    rw [hfamily.sideCount_eq]
    refine ⟨written, hwritten, ?_, fun solid hsolid hpadded => ?_⟩
    · by_cases hrecognized : Degenerate (front ++ l :: ds)
      · rw [if_pos hrecognized] at hsides
        simp [Seed.platonic?_eq_none_of_sides? hsides, (hdeg.1 hrecognized).2]
      · obtain ⟨seed, hseed', hplatonic⟩ :=
          hfamily.exists_writtenSeed?_canonical hwritten hrecognized
        have hsame : c.program.seed = seed := Option.some.inj (hseed.symm.trans hseed')
        rw [hsame, hplatonic]
        constructor
        · intro hdisguised
          refine ⟨hdisguised, ?_⟩
          by_contra hpadded
          exact hrecognized (hdeg.2 ⟨hdisguised, Bool.eq_false_iff.2 hpadded⟩)
        · exact fun hboth => hboth.1
    · obtain ⟨hspelled, hvalid, hsame⟩ := hfamily.reduce_platonic? hwritten hsolid hpadded
      exact ⟨front, by rw [hspelled], hvalid, hsame⟩

/-- The ambo of a pyramid with a padded side count is an octahedron in disguise. -/
theorem isSome_platonic?_compile_ambo_pyramid :
    ∃ c, Text.compile ['a', 'Y', '0', '3'] = .ok c ∧
      c.program.seed.platonic?.isSome = true := by
  obtain ⟨p, hc, -⟩ := compile_of_validate
    (show Text.validate ['a', 'Y', '0', '3'] = .ok () by decide)
  obtain ⟨written, hwritten, hiff, -⟩ := isSome_platonic?_compile_iff hc
  have hpyramid : Text.writtenSeed? ['a', 'Y', '0', '3'] = some (.pyramid 3) := by decide
  have hpadded : (Text.numbers ['a', 'Y', '0', '3']).sideCount.isPadded = true := by decide
  have hsame : written = .pyramid 3 := Option.some.inj (hwritten.symm.trans hpyramid)
  exact ⟨_, hc, hiff.2 ⟨by rw [hsame]; rfl, hpadded⟩⟩

/-- With a padded side count neither the cube is recognized nor, behind ambo, the octahedron. -/
theorem compile_padded_sideCount :
    (∃ c, Text.compile ['P', '0', '4'] = .ok c ∧ c.program.seed = .prism 4) ∧
      ∃ c, Text.compile ['a', 'Y', '0', '3'] = .ok c ∧ c.program.seed = .antiprism 3 := by
  have compiled : ∀ {input : Text} {seed : Seed}, input.validate = .ok () →
      input.compile.toOption.all (fun c => c.program.seed = seed) = true →
      ∃ c, input.compile = .ok c ∧ c.program.seed = seed := by
    intro input seed hvalid hseed
    obtain ⟨p, hc, -⟩ := compile_of_validate hvalid
    rw [hc] at hseed
    exact ⟨_, hc, of_decide_eq_true hseed⟩
  exact ⟨compiled (by decide) (by decide), compiled (by decide) (by decide)⟩

end Polyhedra
