import Polyhedra.Proofs.Notation.Grammar
import Mathlib.Data.Nat.Find

/-!
# Faults

What is said of a text that is no notation.  The order in which faults are looked for
decides between several of them: an empty text, a character outside the alphabet, a
number that is too large among the operators, the form of the whole, and at last the
side count of the seed.

The operators that count are those of the longest run at the beginning of the text
(`Text.OpensWith`).  Every text has just one such run, and a text that has the form of a
notation has its seed behind it (`Text.OpensWith.isShaped_iff`).  Validation reads
operators and stops where the run stops; what it reports there is a fault of the text
(`Lexeme.formFault_of_validateAll`), and a text has one fault at most
(`Text.FormFault.unique`).

## Main results

* `Text.OpensWith.unique`, `Text.exists_opensWith` — the longest run of operators.
* `Text.FormFault.unique` — a text has one fault at most.
* `Text.validate_decides` — validation accepts the notations, and names the first
  fault of every other text.
-/

namespace Polyhedra

open Text

/-! ## Operators and seeds with any numbers -/

namespace Lexeme

/-- The lexeme is an operator; if it may carry a number, one of any size. -/
def SpellsOperator (l : Lexeme) : Prop :=
  (Alphabet.isPlainOperator l.symbol = true ∧ l.digits = []) ∨
    (Alphabet.isSelectingOperator l.symbol = true ∧ l.digits.AllDigits)

/-- The lexeme is a seed; if it needs a side count, any number. -/
def SpellsSeed (l : Lexeme) : Prop :=
  (Alphabet.isFixedSeed l.symbol = true ∧ l.digits = []) ∨
    (Alphabet.isFamilySeed l.symbol = true ∧ l.digits.AllDigits ∧ l.digits ≠ [])

/-- The number that the lexeme carries is not too large. -/
def Fits (l : Lexeme) : Prop := l.digits.value ≤ maxNumber

/-- The place of the digits of a lexeme that stands behind the text `before`. -/
def argumentSpan (before : Text) (l : Lexeme) : Span :=
  ⟨(before ++ [l.symbol]).byteLength, (before ++ l.text).byteLength⟩

variable {l l' : Lexeme}

theorem SpellsOperator.proper (h : l.SpellsOperator) : l.Proper := by
  rcases h with ⟨hplain, hnil⟩ | ⟨hsel, hdigits⟩
  · exact ⟨(Alphabet.of_isPlainOperator hplain).2.2.2, by simp [hnil]⟩
  · exact ⟨(Alphabet.of_isSelectingOperator hsel).2.2.2, hdigits⟩

theorem SpellsOperator.isOperator (h : l.SpellsOperator) :
    Alphabet.isPlainOperator l.symbol = true ∨ Alphabet.isSelectingOperator l.symbol = true :=
  h.imp And.left And.left

theorem SpellsOperator.allDigits (h : l.SpellsOperator) : l.digits.AllDigits := h.proper.digits

/-- The letter of a seed is neither a digit nor the letter of an operator. -/
theorem SpellsSeed.apart (h : l.SpellsSeed) :
    Alphabet.isPlainOperator l.symbol = false ∧ Alphabet.isSelectingOperator l.symbol = false ∧
      l.symbol.isDigit = false := by
  rcases h with ⟨hfix, -⟩ | ⟨hfam, -⟩
  · obtain ⟨hplain, hsel, -, hdigit⟩ := Alphabet.of_isFixedSeed hfix
    exact ⟨hplain, hsel, hdigit⟩
  · obtain ⟨hplain, hsel, -, hdigit⟩ := Alphabet.of_isFamilySeed hfam
    exact ⟨hplain, hsel, hdigit⟩

theorem SpellsSeed.proper (h : l.SpellsSeed) : l.Proper := by
  refine ⟨h.apart.2.2, ?_⟩
  rcases h with ⟨-, hnil⟩ | ⟨-, hdigits, -⟩
  · simp [hnil]
  · exact hdigits

theorem SpellsSeed.text_ne {d : Char} {t : Text} (h : l.SpellsSeed) (hd : d.isDigit = true) :
    d :: t ≠ l.text := by
  intro heq
  rw [(List.cons.inj heq).1, h.apart.2.2] at hd
  simp at hd

/-- A text that is a seed has one lexeme. -/
theorem SpellsSeed.eq_of_text {ls : List Lexeme} (h : l.SpellsSeed) (hls : ∀ m ∈ ls, m.Proper)
    (heq : join ls = l.text) : ls = [l] := by
  refine join_inj hls (fun m hm => List.mem_singleton.1 hm ▸ h.proper) (heq.trans ?_)
  simp [join]

theorem text_inj (h : l.text = l'.text) : l = l' := by
  obtain ⟨hsymbol, hdigits⟩ := List.cons.inj h
  cases l
  cases l'
  simp_all

theorem argumentSpan_eq (before : Text) (l : Lexeme) :
    l.argumentSpan before =
      ⟨before.byteLength + l.symbol.utf8Size, before.byteLength + l.width⟩ := by
  simp [argumentSpan, byteLength_append, byteLength, width]

theorem byteLength_join_concat (front : List Lexeme) (l : Lexeme) :
    (join (front ++ [l])).byteLength = (join front).byteLength + l.width := by
  simp [byteLength_append, join, width]

theorem join_concat_append (front ls : List Lexeme) (l : Lexeme) :
    join (front ++ [l]) ++ join ls = join front ++ join (l :: ls) := by
  simp [join]

theorem noDigitFirst_join_append {ls : List Lexeme} {t : Text} (h : ∀ l ∈ ls, l.Proper)
    (ht : t.NoDigitFirst) : (join ls ++ t).NoDigitFirst := by
  cases ls with
  | nil => simpa [join] using ht
  | cons l ls => simpa [join_cons] using (h l (by simp)).symbol

end Lexeme

open Lexeme

namespace Text

/-! ## The first character outside the alphabet -/

theorem firstUndefined?_eq_some_iff {t : Text} (offset : Nat) {found : Char} {span : Span} :
    t.firstUndefined? offset = some (found, span) ↔
      ∃ before after, t = before ++ found :: after ∧ (∀ c ∈ before, Alphabet.contains c = true) ∧
        Alphabet.contains found = false ∧
        span = ⟨offset + before.byteLength, offset + before.byteLength + found.utf8Size⟩ := by
  induction t generalizing offset with
  | nil => simp [firstUndefined?]
  | cons c t ih =>
    rw [firstUndefined?]
    cases hc : Alphabet.contains c with
    | true =>
      rw [if_pos rfl, ih]
      constructor
      · rintro ⟨before, after, rfl, hknown, hunknown, rfl⟩
        refine ⟨c :: before, after, rfl, List.forall_mem_cons.2 ⟨hc, hknown⟩, hunknown, ?_⟩
        simp only [byteLength, Nat.add_assoc]
      · rintro ⟨before, after, hsplit, hknown, hunknown, rfl⟩
        cases before with
        | nil =>
          obtain ⟨rfl, -⟩ := List.cons.inj hsplit
          simp [hc] at hunknown
        | cons d before =>
          obtain ⟨rfl, rfl⟩ := List.cons.inj hsplit
          refine ⟨before, after, rfl, (List.forall_mem_cons.1 hknown).2, hunknown, ?_⟩
          simp only [byteLength, Nat.add_assoc]
    | false =>
      rw [if_neg (by simp)]
      constructor
      · intro h
        obtain ⟨rfl, rfl⟩ := Prod.mk.inj (Option.some.inj h)
        exact ⟨[], t, rfl, by simp, hc, by simp [byteLength]⟩
      · rintro ⟨before, after, hsplit, hknown, hunknown, rfl⟩
        cases before with
        | nil =>
          obtain ⟨rfl, -⟩ := List.cons.inj hsplit
          simp [byteLength]
        | cons d before =>
          obtain ⟨rfl, -⟩ := List.cons.inj hsplit
          have := hknown c (by simp)
          simp [hc] at this

/-! ## The longest run of operators -/

/-- The text begins with these operators, and with no longer run of operators. -/
structure OpensWith (t : Text) (ops : List Lexeme) (rest : Text) : Prop where
  operators : ∀ o ∈ ops, o.SpellsOperator
  split : t = join ops ++ rest
  longest : ∀ ops' : List Lexeme, (∀ o ∈ ops', o.SpellsOperator) → join ops' <+: t →
    (join ops').length ≤ (join ops).length

/-- Operators and one seed, with numbers of any size. -/
def IsShaped (t : Text) : Prop :=
  ∃ (ops : List Lexeme) (seed : Lexeme),
    (∀ o ∈ ops, o.SpellsOperator) ∧ seed.SpellsSeed ∧ t = join ops ++ seed.text

variable {s t rest rest' : Text} {ops ops' front : List Lexeme} {o : Lexeme}

theorem OpensWith.unique (h : t.OpensWith ops rest) (h' : t.OpensWith ops' rest') :
    ops = ops' ∧ rest = rest' := by
  have hlength : (join ops).length = (join ops').length :=
    Nat.le_antisymm (h'.longest ops h.operators ⟨rest, h.split.symm⟩)
      (h.longest ops' h'.operators ⟨rest', h'.split.symm⟩)
  obtain ⟨hjoin, hrest⟩ := List.append_inj (h.split.symm.trans h'.split) hlength
  exact ⟨join_inj (fun o ho => (h.operators o ho).proper) (fun o ho => (h'.operators o ho).proper)
    hjoin, hrest⟩

theorem exists_opensWith (t : Text) : ∃ ops rest, t.OpensWith ops rest := by
  classical
  let Runs : Nat → Prop := fun n =>
    ∃ ops : List Lexeme, (∀ o ∈ ops, o.SpellsOperator) ∧ join ops <+: t ∧ (join ops).length = n
  have hnil : Runs 0 := ⟨[], by simp, List.nil_prefix, rfl⟩
  obtain ⟨ops, hops, ⟨rest, hsplit⟩, hlength⟩ := Nat.findGreatest_spec t.length.zero_le hnil
  refine ⟨ops, rest, hops, hsplit.symm, fun ops' hops' hprefix => ?_⟩
  rw [hlength]
  exact Nat.le_findGreatest hprefix.length_le ⟨ops', hops', hprefix, rfl⟩

/-- A text that begins with no letter of an operator begins with no operators. -/
theorem opensWith_nil (h : ∀ c ∈ t.head?,
    Alphabet.isPlainOperator c = false ∧ Alphabet.isSelectingOperator c = false) :
    t.OpensWith [] t := by
  refine ⟨by simp, rfl, fun ops' hops' hprefix => ?_⟩
  cases ops' with
  | nil => exact le_rfl
  | cons o ops' =>
    obtain ⟨u, rfl⟩ := hprefix
    obtain ⟨hplain, hsel⟩ := h o.symbol (by simp [join_cons])
    rcases (hops' o (by simp)).isOperator with ho | ho
    · simp [hplain] at ho
    · simp [hsel] at ho

/-- A text that begins with a digit begins with no operators. -/
theorem opensWith_of_isDigit {d : Char} (hd : d.isDigit = true) :
    OpensWith (d :: t) [] (d :: t) := by
  refine opensWith_nil fun c hc => ?_
  obtain rfl : d = c := by simpa using hc
  constructor
  · refine Bool.eq_false_iff.2 fun hplain => ?_
    simp [(Alphabet.of_isPlainOperator hplain).2.2.2] at hd
  · refine Bool.eq_false_iff.2 fun hsel => ?_
    simp [(Alphabet.of_isSelectingOperator hsel).2.2.2] at hd

/-- Digits at the beginning of a text are no more than all of its leading digits. -/
theorem length_le_of_digits_prefix {ds es : Text} (hds : ds.AllDigits) (hs : s.NoDigitFirst)
    (h : ds <+: es ++ s) : ds.length ≤ es.length := by
  by_contra hlt
  obtain ⟨x, rfl⟩ := List.prefix_of_prefix_length_le (List.prefix_append es s) h (by omega)
  have hx : x <+: s := (List.prefix_append_right_inj es).1 h
  cases x with
  | nil => simp at hlt
  | cons d x =>
    obtain ⟨u, rfl⟩ := hx
    have hdigit := hds d (by simp)
    simp [noDigitFirst_cons.1 hs] at hdigit

/-- Behind digits the operators begin where the digits end, if there are any operators. -/
theorem join_prefix_cases {ds es : Text} (hds : ds.AllDigits) (hes : es.AllDigits)
    (hs : s.NoDigitFirst) (hops : ∀ o ∈ ops, o.Proper) (h : ds ++ join ops <+: es ++ s) :
    ops = [] ∧ ds.length ≤ es.length ∨ ds = es ∧ join ops <+: s := by
  cases ops with
  | nil => exact .inl ⟨rfl, length_le_of_digits_prefix hds hs (by simpa [join] using h)⟩
  | cons o ops =>
    obtain ⟨u, hu⟩ := h
    rw [List.append_assoc] at hu
    have hfirst : (join (o :: ops) ++ u).NoDigitFirst := by
      rw [join_cons, List.cons_append, noDigitFirst_cons]
      exact (hops o (by simp)).symbol
    obtain ⟨heq, hrest⟩ := digits_append_inj hds hes hfirst hs hu
    exact .inr ⟨heq, u, hrest⟩

/-- An operator in front of a text is the first of its operators. -/
theorem OpensWith.cons (ho : o.SpellsOperator)
    (hs : Alphabet.isSelectingOperator o.symbol = true → s.NoDigitFirst)
    (h : s.OpensWith ops rest) : (o.text ++ s).OpensWith (o :: ops) rest := by
  refine ⟨List.forall_mem_cons.2 ⟨ho, h.operators⟩, ?_, fun ops' hops' hprefix => ?_⟩
  · rw [h.split, join_cons]
    simp [Lexeme.text]
  cases ops' with
  | nil => exact Nat.zero_le _
  | cons p ps =>
    obtain ⟨hp, hps⟩ := List.forall_mem_cons.1 hops'
    rw [join_cons, Lexeme.text, List.cons_append, List.cons_prefix_cons] at hprefix
    obtain ⟨hsymbol, hprefix⟩ := hprefix
    have hcases : ps = [] ∧ p.digits.length ≤ o.digits.length ∨
        p.digits = o.digits ∧ join ps <+: s := by
      rcases ho with ⟨hplain, hnil⟩ | ⟨hsel, hdigits⟩
      · rcases hp with ⟨-, hnil'⟩ | ⟨hsel', -⟩
        · exact .inr ⟨hnil'.trans hnil.symm, by simpa [hnil, hnil'] using hprefix⟩
        · rw [hsymbol, (Alphabet.of_isPlainOperator hplain).1] at hsel'
          simp at hsel'
      · exact join_prefix_cases hp.allDigits hdigits (hs hsel) (fun q hq => (hps q hq).proper)
          hprefix
    simp only [join_cons, List.length_cons, List.length_append]
    rcases hcases with ⟨rfl, hle⟩ | ⟨heq, hrest⟩
    · simp only [join, List.flatMap_nil, List.length_nil]
      omega
    · have hle := h.longest ps hps hrest
      rw [heq]
      omega

/-- A plain operator with a digit behind it is the last of the operators. -/
theorem opensWith_plain_digit {c d : Char} (hc : Alphabet.isPlainOperator c = true)
    (hd : d.isDigit = true) : OpensWith (c :: d :: t) [⟨c, []⟩] (d :: t) := by
  have hletter : SpellsOperator ⟨c, []⟩ := .inl ⟨hc, rfl⟩
  refine (opensWith_of_isDigit hd).cons hletter fun hsel => ?_
  exact absurd hsel (by simp [(Alphabet.of_isPlainOperator hc).1])

/-- Operators in front of a text are the first of its operators. -/
theorem OpensWith.append (hfront : ∀ o ∈ front, o.SpellsOperator) (hs : s.NoDigitFirst)
    (h : s.OpensWith ops rest) : (join front ++ s).OpensWith (front ++ ops) rest := by
  induction front with
  | nil => exact h
  | cons o front ih =>
    obtain ⟨ho, hfront⟩ := List.forall_mem_cons.1 hfront
    have hrest : (join front ++ s).NoDigitFirst :=
      noDigitFirst_join_append (fun p hp => (hfront p hp).proper) hs
    have hcons := (ih hfront).cons ho fun _ => hrest
    rwa [← List.append_assoc] at hcons

/-- Behind operators a seed stands behind the longest run of them. -/
theorem opensWith_seed {seed : Lexeme} (hops : ∀ o ∈ ops, o.SpellsOperator)
    (hseed : seed.SpellsSeed) : (join ops ++ seed.text).OpensWith ops seed.text := by
  obtain ⟨hplain, hsel, hdigit⟩ := hseed.apart
  have hnil : seed.text.OpensWith [] seed.text :=
    opensWith_nil (by simp [Lexeme.text, hplain, hsel])
  have happend := hnil.append hops (by simpa [Lexeme.text] using hdigit)
  rwa [List.append_nil] at happend

/-- A text with the form of a notation has a seed behind its operators. -/
theorem OpensWith.isShaped_iff (h : t.OpensWith ops rest) :
    t.IsShaped ↔ ∃ seed : Lexeme, seed.SpellsSeed ∧ rest = seed.text := by
  constructor
  · rintro ⟨ops', seed, hops', hseed, rfl⟩
    exact ⟨seed, hseed, (h.unique (opensWith_seed hops' hseed)).2⟩
  · rintro ⟨seed, hseed, rfl⟩
    exact ⟨ops, seed, h.operators, hseed, h.split⟩

/-! ## What is wrong with the form -/

/-- What is wrong with the side count of a seed. -/
inductive SideFault (digits : Text) (span : Span) : NotationError → Prop where
  | numberTooLarge (large : maxNumber < digits.value) :
      SideFault digits span (.numberTooLarge digits span)
  | tooFewSides (few : digits.value < minSeedSides) :
      SideFault digits span (.tooFewSides digits.value span)
  | tooManySides (many : maxSeedSides < digits.value) (fits : digits.value ≤ maxNumber) :
      SideFault digits span (.tooManySides digits.value span)

/-- What is wrong with a text that is not empty and is written in the alphabet. -/
inductive FormFault (t : Text) : NotationError → Prop where
  /-- The first number among the operators that is too large. -/
  | selector {before after : List Lexeme} {o : Lexeme} {rest : Text}
      (opens : t.OpensWith (before ++ o :: after) rest) (fits : ∀ p ∈ before, p.Fits)
      (large : maxNumber < o.digits.value) :
      FormFault t (.numberTooLarge o.digits (o.argumentSpan (join before)))
  /-- If there is none: the form. -/
  | shape {ops : List Lexeme} {rest : Text} (opens : t.OpensWith ops rest)
      (fits : ∀ p ∈ ops, p.Fits) (unshaped : ¬ t.IsShaped) : FormFault t (.illFormed t)
  /-- If that is right: the side count of the seed. -/
  | sides {ops : List Lexeme} {seed : Lexeme} {e : NotationError}
      (opens : t.OpensWith ops seed.text) (fits : ∀ p ∈ ops, p.Fits) (spells : seed.SpellsSeed)
      (family : Alphabet.isFamilySeed seed.symbol = true)
      (fault : SideFault seed.digits (seed.argumentSpan (join ops)) e) : FormFault t e

/-- The first fault of a text, in the order in which faults are looked for. -/
inductive FirstFault (t : Text) : NotationError → Prop where
  | empty (eq_nil : t = []) : FirstFault t .empty
  | undefined {before after : Text} {found : Char} (split : t = before ++ found :: after)
      (known : ∀ c ∈ before, Alphabet.contains c = true)
      (unknown : Alphabet.contains found = false) :
      FirstFault t (.undefinedCharacter found
        ⟨before.byteLength, before.byteLength + found.utf8Size⟩)
  | form {e : NotationError} (ne_nil : t ≠ []) (known : ∀ c ∈ t, Alphabet.contains c = true)
      (fault : t.FormFault e) : FirstFault t e

variable {digits : Text} {span : Span} {e e' : NotationError}

theorem readSides_eq_error_iff : digits.readSides span = .error e ↔ SideFault digits span e := by
  have hmin : minSeedSides ≤ maxSeedSides := by decide
  have hmax : maxSeedSides ≤ maxNumber := by decide
  unfold readSides readNumber checkSides
  constructor
  · intro h
    split at h
    · simp only [Except.bind] at h
      split at h
      · obtain rfl := Except.error.inj h
        exact .tooFewSides ‹_›
      · split at h
        · obtain rfl := Except.error.inj h
          exact .tooManySides ‹_› ‹_›
        · simp at h
    · obtain rfl := Except.error.inj h
      exact .numberTooLarge (by omega)
  · rintro (large | few | ⟨many, fits⟩)
    · rw [if_neg (by omega)]
      rfl
    · rw [if_pos (by omega), Except.bind, if_pos few]
    · rw [if_pos fits, Except.bind, if_neg (by omega), if_pos many]

theorem SideFault.unique (h : SideFault digits span e) (h' : SideFault digits span e') : e = e' :=
  Except.error.inj ((readSides_eq_error_iff.2 h).symm.trans (readSides_eq_error_iff.2 h'))

/-! ## One fault at most -/

/-- A list is cut in one way in front of its first entry that lacks a property. -/
theorem eq_of_append_first {α : Type} {P : α → Prop} {l l' m m' : List α} {a a' : α}
    (hl : ∀ x ∈ l, P x) (ha : ¬ P a) (hl' : ∀ x ∈ l', P x) (ha' : ¬ P a')
    (h : l ++ a :: m = l' ++ a' :: m') : l = l' ∧ a = a' := by
  induction l generalizing l' with
  | nil =>
    cases l' with
    | nil => exact ⟨rfl, (List.cons.inj h).1⟩
    | cons x l' =>
      obtain ⟨rfl, -⟩ := List.cons.inj h
      exact absurd (hl' a (by simp)) ha
  | cons x l ih =>
    cases l' with
    | nil =>
      obtain ⟨rfl, -⟩ := List.cons.inj h
      exact absurd (hl x (by simp)) ha'
    | cons y l' =>
      obtain ⟨rfl, hrest⟩ := List.cons.inj h
      obtain ⟨rfl, rfl⟩ := ih (List.forall_mem_cons.1 hl).2 (List.forall_mem_cons.1 hl').2 hrest
      exact ⟨rfl, rfl⟩

namespace FormFault

/-- A number among the operators that is too large is found in the longest run of them. -/
theorem not_fits {before after : List Lexeme}
    (h : t.OpensWith (before ++ o :: after) rest) (large : maxNumber < o.digits.value)
    (h' : t.OpensWith ops rest') : ¬ ∀ p ∈ ops, p.Fits := by
  obtain ⟨rfl, -⟩ := h.unique h'
  exact fun hfits => Nat.not_le.2 large (hfits o (by simp))

theorem unique (h : t.FormFault e) (h' : t.FormFault e') : e = e' := by
  cases h with
  | selector opens fits large =>
    cases h' with
    | selector opens' fits' large' =>
      obtain ⟨rfl, rfl⟩ := eq_of_append_first fits (Nat.not_le.2 large) fits'
        (Nat.not_le.2 large') (opens.unique opens').1
      rfl
    | shape opens' fits' => exact absurd fits' (not_fits opens large opens')
    | sides opens' fits' => exact absurd fits' (not_fits opens large opens')
  | shape opens fits unshaped =>
    cases h' with
    | selector opens' _ large' => exact absurd fits (not_fits opens' large' opens)
    | shape => rfl
    | sides opens' _ spells => exact absurd (opens'.isShaped_iff.2 ⟨_, spells, rfl⟩) unshaped
  | sides opens fits spells _ fault =>
    cases h' with
    | selector opens' _ large' => exact absurd fits (not_fits opens' large' opens)
    | shape _ _ unshaped => exact absurd (opens.isShaped_iff.2 ⟨_, spells, rfl⟩) unshaped
    | sides opens' _ _ _ fault' =>
      obtain ⟨rfl, htext⟩ := opens.unique opens'
      obtain rfl := text_inj htext
      exact fault.unique fault'

end FormFault

end Text

/-- The operators and the seed of a notation. -/
theorem IsNotation.exists_spelled {t : Text} (h : IsNotation t) :
    ∃ (ops : List Lexeme) (seed : Lexeme), (∀ o ∈ ops, o.SpellsOperator ∧ o.Fits) ∧
      seed.SpellsSeed ∧ (Alphabet.isFamilySeed seed.symbol = true → IsSides seed.digits) ∧
      t = join ops ++ seed.text := by
  induction h with
  | seed isSeed =>
    cases isSeed with
    | @fixed c letter =>
      refine ⟨[], ⟨c, []⟩, by simp, .inl ⟨letter, rfl⟩, fun hfamily => ?_, rfl⟩
      simp [(Alphabet.of_isFixedSeed letter).2.2.1] at hfamily
    | @family c digits letter all_digits ne_nil le_value value_le =>
      exact ⟨[], ⟨c, digits⟩, by simp, .inr ⟨letter, all_digits, ne_nil⟩,
        fun _ => ⟨all_digits, ne_nil, le_value, value_le⟩, rfl⟩
  | operator isOperator _ ih =>
    obtain ⟨ops, seed, hops, hseed, hsides, rfl⟩ := ih
    cases isOperator with
    | @plain c letter =>
      refine ⟨⟨c, []⟩ :: ops, seed, List.forall_mem_cons.2 ⟨⟨.inl ⟨letter, rfl⟩, ?_⟩, hops⟩,
        hseed, hsides, ?_⟩
      · exact Nat.zero_le _
      · simp [join_cons]
    | @selecting c digits letter all_digits value_le =>
      refine ⟨⟨c, digits⟩ :: ops, seed,
        List.forall_mem_cons.2 ⟨⟨.inr ⟨letter, all_digits⟩, value_le⟩, hops⟩, hseed, hsides, ?_⟩
      simp [join_cons]

/-- Nothing is wrong with the form of a notation. -/
theorem Text.FormFault.not_isNotation {t : Text} {e : NotationError} (h : t.FormFault e) :
    ¬ IsNotation t := by
  intro hnotation
  obtain ⟨ops, seed, hops, hseed, hsides, rfl⟩ := hnotation.exists_spelled
  have hopens := opensWith_seed (fun o ho => (hops o ho).1) hseed
  cases h with
  | selector opens _ large => exact not_fits opens large hopens fun o ho => (hops o ho).2
  | shape _ _ unshaped => exact unshaped (hopens.isShaped_iff.2 ⟨seed, hseed, rfl⟩)
  | sides opens _ _ family fault =>
    obtain rfl := text_inj (opens.unique hopens).2
    obtain ⟨-, -, hmin, hmax⟩ := hsides family
    have hread := readSides_eq_error_iff.2 fault
    rw [readSides_eq_ok_iff.2 ⟨rfl, hmin, hmax⟩] at hread
    simp at hread

/-! ## What validation finds -/

section Read

variable {front ls : List Lexeme} {l : Lexeme} {e : NotationError}

namespace Text.FormFault

section Behind

variable (hfront : ∀ o ∈ front, o.SpellsOperator ∧ o.Fits)
include hfront

/-- Behind operators a text is ill-formed if no seed stands behind its own operators. -/
theorem of_illFormed {s rest : Text} {ops : List Lexeme} (hs : s.NoDigitFirst)
    (hopens : s.OpensWith ops rest) (hfits : ∀ o ∈ ops, o.Fits)
    (hnone : ∀ seed : Lexeme, seed.SpellsSeed → rest ≠ seed.text) :
    (join front ++ s).FormFault (.illFormed (join front ++ s)) := by
  have hwhole := hopens.append (fun o ho => (hfront o ho).1) hs
  refine .shape hwhole (List.forall_mem_append.2 ⟨fun o ho => (hfront o ho).2, hfits⟩) ?_
  rw [hwhole.isShaped_iff]
  rintro ⟨seed, hseed, heq⟩
  exact hnone seed hseed heq

/-- A plain operator carries no digits. -/
theorem of_plain_digits (hls : ∀ m ∈ l :: ls, m.Proper)
    (hplain : Alphabet.isPlainOperator l.symbol = true) (hdigits : l.digits ≠ []) :
    (join front ++ join (l :: ls)).FormFault (.illFormed (join front ++ join (l :: ls))) := by
  obtain ⟨d, ds, hd⟩ := List.exists_cons_of_ne_nil hdigits
  have hdigit : d.isDigit = true := (hls l (by simp)).digits d (by simp [hd])
  have hopens : (join (l :: ls)).OpensWith [⟨l.symbol, []⟩] (d :: (ds ++ join ls)) := by
    rw [join_cons, hd]
    exact opensWith_plain_digit hplain hdigit
  refine .of_illFormed hfront (noDigitFirst_join hls) hopens (by simp [Fits, value]) ?_
  exact fun seed hseed => hseed.text_ne hdigit

/-- The number of an operator is too large. -/
theorem of_selector (hls : ∀ m ∈ ls, m.Proper) (hspells : l.SpellsOperator)
    (hlarge : maxNumber < l.digits.value) :
    (join front ++ join (l :: ls)).FormFault
      (.numberTooLarge l.digits (l.argumentSpan (join front))) := by
  -- the run goes on behind the number, which validation does not look at any more
  obtain ⟨ops, rest, hbehind⟩ := exists_opensWith (join ls)
  have hopens : (join (l :: ls)).OpensWith (l :: ops) rest :=
    hbehind.cons hspells fun _ => noDigitFirst_join hls
  have hfirst : (join (l :: ls)).NoDigitFirst :=
    noDigitFirst_join (List.forall_mem_cons.2 ⟨hspells.proper, hls⟩)
  exact .selector (hopens.append (fun o ho => (hfront o ho).1) hfirst)
    (fun o ho => (hfront o ho).2) hlarge

/-- A lexeme that is no operator is the seed, at the end, or there is none. -/
theorem of_no_seed (hls : ∀ m ∈ l :: ls, m.Proper)
    (hplain : ¬ Alphabet.isPlainOperator l.symbol = true)
    (hsel : ¬ Alphabet.isSelectingOperator l.symbol = true) (hnone : l.SpellsSeed → ls ≠ []) :
    (join front ++ join (l :: ls)).FormFault (.illFormed (join front ++ join (l :: ls))) := by
  have hstuck : (join (l :: ls)).OpensWith [] (join (l :: ls)) :=
    opensWith_nil (by simp [join_cons, hplain, hsel])
  refine .of_illFormed hfront (noDigitFirst_join hls) hstuck (by simp) fun seed hseed heq => ?_
  obtain ⟨rfl, rfl⟩ := List.cons.inj (hseed.eq_of_text hls heq)
  exact hnone hseed rfl

/-- The side count of the seed is wrong. -/
theorem of_sides (hfam : Alphabet.isFamilySeed l.symbol = true) (hdigits : l.digits.AllDigits)
    (hne : l.digits ≠ []) (hfault : SideFault l.digits (l.argumentSpan (join front)) e) :
    (join front ++ join [l]).FormFault e := by
  have hseed : l.SpellsSeed := .inr ⟨hfam, hdigits, hne⟩
  have htext : join [l] = l.text := by simp [join]
  rw [htext]
  exact .sides (opensWith_seed (fun o ho => (hfront o ho).1) hseed)
    (fun o ho => (hfront o ho).2) hseed hfam hfault

end Behind

end Text.FormFault

/--
Behind operators whose numbers fit, what validation finds wrong with the remaining
lexemes is wrong with the whole text.
-/
theorem Lexeme.formFault_of_validateAll (hfront : ∀ o ∈ front, o.SpellsOperator ∧ o.Fits)
    (hls : ∀ l ∈ ls, l.Proper)
    (h : validateAll (join front ++ join ls) (join front).byteLength ls = .error e) :
    (join front ++ join ls).FormFault e := by
  induction ls generalizing front with
  | nil =>
    obtain rfl := Except.error.inj h
    refine .of_illFormed hfront (by simp [join]) (opensWith_nil (by simp [join])) (by simp) ?_
    exact fun seed _ => by simp [join, Lexeme.text]
  | cons l ls ih =>
    obtain ⟨hl, hrest⟩ := List.forall_mem_cons.1 hls
    have step : l.SpellsOperator → l.Fits →
        validateAll (join front ++ join (l :: ls)) ((join front).byteLength + l.width) ls =
          .error e →
        (join front ++ join (l :: ls)).FormFault e := by
      intro hspells hfits h
      have hfront' : ∀ o ∈ front ++ [l], o.SpellsOperator ∧ o.Fits :=
        List.forall_mem_append.2 ⟨hfront, by simpa using ⟨hspells, hfits⟩⟩
      rw [← join_concat_append] at h ⊢
      rw [← byteLength_join_concat] at h
      exact ih hfront' hrest h
    rw [validateAll, ← argumentSpan_eq] at h
    split_ifs at h with hplain hdigits hsel hfix hend hfam hsides
    · exact step (.inl ⟨hplain, hdigits⟩) (by simp [Fits, hdigits, value]) h
    · obtain rfl := Except.error.inj h
      exact .of_plain_digits hfront hls hplain hdigits
    · have hspells : l.SpellsOperator := .inr ⟨hsel, hl.digits⟩
      by_cases hfits : l.digits.value ≤ maxNumber
      · rw [readNumber_eq_ok_iff.2 ⟨rfl, hfits⟩] at h
        exact step hspells hfits h
      · rw [readNumber, if_neg hfits] at h
        obtain rfl := Except.error.inj h
        exact .of_selector hfront hrest hspells (Nat.not_le.1 hfits)
    · obtain rfl := Except.error.inj h
      refine .of_no_seed hfront hls hplain hsel fun hseed hnil => hend ⟨?_, hnil⟩
      rcases hseed with ⟨-, hdigits⟩ | ⟨hfam, -⟩
      · exact hdigits
      · simp [(Alphabet.of_isFixedSeed hfix).2.2.1] at hfam
    · obtain ⟨hne, rfl⟩ := hsides
      cases hread : l.digits.readSides (l.argumentSpan (join front)) with
      | ok n => simp [hread, Except.map] at h
      | error e' =>
        rw [hread] at h
        obtain rfl := Except.error.inj h
        exact .of_sides hfront hfam hl.digits hne (readSides_eq_error_iff.1 hread)
    · obtain rfl := Except.error.inj h
      refine .of_no_seed hfront hls hplain hsel fun hseed hnil => hsides ⟨?_, hnil⟩
      rcases hseed with ⟨hfix', -⟩ | ⟨-, -, hne⟩
      · exact absurd hfix' hfix
      · exact hne
    · obtain rfl := Except.error.inj h
      refine .of_no_seed hfront hls hplain hsel fun hseed _ => ?_
      rcases hseed with ⟨hfix', -⟩ | ⟨hfam', -⟩
      · exact hfix hfix'
      · exact hfam hfam'

end Read

namespace Text

variable {t : Text} {e e' : NotationError}

theorem FirstFault.unique (h : t.FirstFault e) (h' : t.FirstFault e') : e = e' := by
  cases h with
  | empty eq_nil =>
    cases h' with
    | empty => rfl
    | undefined split => simp [eq_nil] at split
    | form ne_nil => exact absurd eq_nil ne_nil
  | @undefined before after found split known unknown =>
    cases h' with
    | empty eq_nil => simp [eq_nil] at split
    | undefined split' known' unknown' =>
      have hfirst := (firstUndefined?_eq_some_iff 0).2 ⟨_, _, split, known, unknown, rfl⟩
      have hfirst' := (firstUndefined?_eq_some_iff 0).2 ⟨_, _, split', known', unknown', rfl⟩
      obtain ⟨rfl, hspan⟩ := Prod.mk.inj (Option.some.inj (hfirst.symm.trans hfirst'))
      simpa using hspan
    | form _ known' =>
      have := known' found (by simp [split])
      simp [unknown] at this
  | form ne_nil known fault =>
    cases h' with
    | empty eq_nil => exact absurd eq_nil ne_nil
    | @undefined before after found split _ unknown =>
      have := known found (by simp [split])
      simp [unknown] at this
    | form _ _ fault' => exact fault.unique fault'

theorem FirstFault.not_isNotation (h : t.FirstFault e) : ¬ IsNotation t := by
  intro hnotation
  cases h with
  | empty eq_nil => exact hnotation.ne_nil eq_nil
  | @undefined before after found split _ unknown =>
    have := hnotation.forall_contains found (by simp [split])
    simp [unknown] at this
  | form _ _ fault => exact fault.not_isNotation hnotation

/-- What validation reports is the first fault. -/
theorem firstFault_of_validate (h : t.validate = .error e) : t.FirstFault e := by
  unfold validate at h
  split_ifs at h with hnil
  · obtain rfl := Except.error.inj h
    exact .empty hnil
  · split at h
    · next found span hfound =>
      obtain rfl := Except.error.inj h
      obtain ⟨before, after, hsplit, hknown, hunknown, rfl⟩ :=
        (firstUndefined?_eq_some_iff 0).1 hfound
      rw [Nat.zero_add]
      exact .undefined hsplit hknown hunknown
    · next hfound =>
      refine .form hnil ((firstUndefined?_eq_none_iff 0).1 hfound) ?_
      have hjoin := lex_join t
      have hproper := proper_of_mem_lex t
      have hdigits := allDigits_lex t
      split at h
      · next ls hlex =>
        rw [hlex] at hjoin hproper
        have hnone : ∀ o ∈ ([] : List Lexeme), o.SpellsOperator ∧ o.Fits := by simp
        rw [← hjoin] at h ⊢
        exact formFault_of_validateAll hnone hproper h
      · next d ds ls hlex =>
        rw [hlex] at hjoin hdigits
        have hd := (allDigits_cons.1 hdigits).1
        obtain rfl := Except.error.inj h
        rw [← hjoin, List.cons_append]
        refine .shape (opensWith_of_isDigit hd) (by simp) ?_
        rw [(opensWith_of_isDigit hd).isShaped_iff]
        exact fun ⟨seed, hseed, heq⟩ => hseed.text_ne hd heq

/--
Validation accepts the notations.  Of any other text it names the first fault, and a text
with a fault it does not accept.
-/
theorem validate_decides (t : Text) :
    (t.validate = .ok () ↔ IsNotation t) ∧ ∀ e, t.validate = .error e ↔ t.FirstFault e := by
  refine ⟨validate_eq_ok_iff_isNotation, fun e => ⟨firstFault_of_validate, fun h => ?_⟩⟩
  cases hres : t.validate with
  | ok => exact absurd (validate_eq_ok_iff_isNotation.1 hres) h.not_isNotation
  | error e' => rw [h.unique (firstFault_of_validate hres)]

end Text

end Polyhedra
