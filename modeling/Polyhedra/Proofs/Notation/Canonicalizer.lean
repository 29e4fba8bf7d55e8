import Polyhedra.Proofs.Notation.Replacement

/-!
# Canonical form, letter by letter

Reduction brings a notation into canonical form by passes over the whole text.
`Text.canonical` computes the same form from right to left, putting one letter
in front of a canonical rest at a time: `pushDual`, `pushAmbo` and `pushGyro`
look at the beginning of the rest and merge with it where a rule would.

Since a letter sees the canonical form of what follows it and nothing else, a
rule keeps the canonical form if it does so at the beginning of a text.  That is
a finite check: it is made once for each rule of the table (`of_literal`), and
`IsNotation.of_replaces` carries it to every place of every notation.

## Main results

* `canonical_of_replaces` — replacing one occurrence keeps the canonical form.
* `IsNotation.of_replaces` — replacing one occurrence keeps the grammar.
* `Degenerate.of_replaces` — no rule but those for degenerate seeds makes a
  degenerate seed.
-/

namespace Polyhedra

theorem Alphabet.mem_fixedSeeds {c : Char} :
    c ∈ fixedSeeds ↔ c = 'T' ∨ c = 'C' ∨ c = 'O' ∨ c = 'I' ∨ c = 'D' := by
  simp [fixedSeeds]

namespace Text

/-! ## Putting one letter in front -/

/-- The dual of a solid with canonical notation. -/
def pushDual : Text → Text
  | 'd' :: t => t
  | 'T' :: t => 'T' :: t
  | 'C' :: t => 'O' :: t
  | 'O' :: t => 'C' :: t
  | 'I' :: t => 'D' :: t
  | 'D' :: t => 'I' :: t
  | t => 'd' :: t

/-- Ambo of a solid whose notation does not begin with a dual. -/
def pushAmboPlain : Text → Text
  | 'Y' :: t => 'A' :: t
  | 'T' :: t => 'O' :: t
  | 'O' :: t => 'a' :: 'C' :: t
  | 'I' :: t => 'a' :: 'D' :: t
  | t => 'a' :: t

/-- Ambo does not tell a solid from its dual. -/
def pushAmbo : Text → Text
  | 'd' :: t => pushAmboPlain t
  | t => pushAmboPlain t

/-- Gyro of a solid whose notation does not begin with a dual. -/
def pushGyroPlain : Text → Text
  | 'T' :: t => 'D' :: t
  | 'O' :: t => 'g' :: 'C' :: t
  | 'I' :: t => 'g' :: 'D' :: t
  | t => 'g' :: t

/-- Gyro does not tell a solid from its dual. -/
def pushGyro : Text → Text
  | 'd' :: t => pushGyroPlain t
  | t => pushGyroPlain t

def pushJoin (t : Text) : Text := pushDual (pushAmbo (pushDual t))

def pushSnub (t : Text) : Text := pushDual (pushGyro (pushDual t))

/-- Truncation takes the digits that stand in front along as a selector. -/
def pushTruncate (t : Text) : Text :=
  pushDual ('k' :: (t.takeWhile Char.isDigit ++ pushDual (t.dropWhile Char.isDigit)))

/-- A family letter in front of its side count, unless the solid is a Platonic one. -/
def pushFamily (letter : Char) (count : Text) (platonic : Char) (t : Text) : Text :=
  if t = count then [platonic] else letter :: t

/-- One letter in front of a canonical rest. -/
def push (c : Char) (t : Text) : Text :=
  match c with
  | 'd' => pushDual t
  | 'a' => pushAmbo t
  | 'g' => pushGyro t
  | 'j' => pushJoin t
  | 's' => pushSnub t
  | 't' => pushTruncate t
  | 'e' => pushAmbo (pushAmbo t)
  | 'b' => pushTruncate (pushAmbo t)
  | 'o' => pushJoin (pushJoin t)
  | 'm' => 'k' :: pushJoin t
  | 'P' => pushFamily 'P' ['4'] 'C' t
  | 'A' => pushFamily 'A' ['3'] 'O' t
  | 'Y' => pushFamily 'Y' ['3'] 'T' t
  | c => c :: t

/-- The canonical form of a notation, from right to left. -/
def canonical (t : Text) : Text := t.foldr push []

theorem canonical_append (s t : Text) : canonical (s ++ t) = s.foldr push (canonical t) := by
  simp [canonical]

theorem canonical_cons (c : Char) (t : Text) : canonical (c :: t) = push c (canonical t) := rfl

theorem push_of_isDigit {c : Char} (h : c.isDigit = true) (t : Text) : push c t = c :: t := by
  unfold push
  split <;> first | rfl | exact absurd h (by decide)

theorem foldr_push_digits {ds : Text} (h : ds.AllDigits) (t : Text) :
    ds.foldr push t = ds ++ t := by
  induction ds with
  | nil => rfl
  | cons d ds ih =>
    rw [List.foldr_cons, ih (allDigits_cons.1 h).2, push_of_isDigit (allDigits_cons.1 h).1,
      List.cons_append]

theorem canonical_digits {ds : Text} (h : ds.AllDigits) (t : Text) :
    canonical (ds ++ t) = ds ++ canonical t := by
  rw [canonical_append, foldr_push_digits h]

/-! ## Settled texts -/

/-- The text begins with a letter, and with no dual that would merge with what follows. -/
structure Settled (t : Text) : Prop where
  ne_nil : t ≠ []
  noDigitFirst : t.NoDigitFirst
  dual : ∀ s, t = 'd' :: s → pushDual s = 'd' :: s ∧ s ≠ [] ∧ NoDigitFirst s

theorem pushAmbo_eq_plain {t : Text} (h : t.head? ≠ some 'd') : pushAmbo t = pushAmboPlain t := by
  unfold pushAmbo
  split
  · simp at h
  · rfl

theorem pushGyro_eq_plain {t : Text} (h : t.head? ≠ some 'd') : pushGyro t = pushGyroPlain t := by
  unfold pushGyro
  split
  · simp at h
  · rfl

theorem head?_ne_of_pushDual {s : Text} (h : pushDual s = 'd' :: s) : s.head? ≠ some 'd' := by
  intro hhead
  obtain ⟨r, rfl⟩ := List.head?_eq_some_iff.1 hhead
  have hlen := congrArg List.length h
  simp only [pushDual, List.length_cons] at hlen
  omega

/-- A dual is put in front, unless a dual or a fixed seed is there. -/
theorem pushDual_cases (t : Text) :
    (∃ s, t = 'd' :: s) ∨ (∃ c ∈ Alphabet.fixedSeeds, ∃ s, t = c :: s) ∨
      (pushDual t = 'd' :: t ∧ t.head? ≠ some 'd') := by
  unfold pushDual
  split
  · exact .inl ⟨_, rfl⟩
  · exact .inr (.inl ⟨'T', by decide, _, rfl⟩)
  · exact .inr (.inl ⟨'C', by decide, _, rfl⟩)
  · exact .inr (.inl ⟨'O', by decide, _, rfl⟩)
  · exact .inr (.inl ⟨'I', by decide, _, rfl⟩)
  · exact .inr (.inl ⟨'D', by decide, _, rfl⟩)
  · next hd _ _ _ _ _ =>
    refine .inr (.inr ⟨rfl, fun hhead => ?_⟩)
    obtain ⟨s, rfl⟩ := List.head?_eq_some_iff.1 hhead
    exact hd s rfl

namespace Settled

theorem of_head {c : Char} {t : Text} (hc : c.isDigit = false) (hd : c ≠ 'd') :
    Settled (c :: t) :=
  ⟨by simp, by simpa using hc, fun s hs => absurd (List.cons.inj hs).1 hd⟩

variable {t : Text}

theorem pushDual_pushDual (h : t.Settled) : pushDual (pushDual t) = t := by
  rcases pushDual_cases t with ⟨s, rfl⟩ | ⟨c, hc, s, rfl⟩ | ⟨heq, _⟩
  · exact (h.dual s rfl).1
  · rw [Alphabet.mem_fixedSeeds] at hc
    rcases hc with rfl | rfl | rfl | rfl | rfl <;> rfl
  · rw [heq]
    rfl

/-- Ambo does not tell a solid from its dual. -/
theorem pushAmbo_pushDual (h : t.Settled) : pushAmbo (pushDual t) = pushAmbo t := by
  rcases pushDual_cases t with ⟨s, rfl⟩ | ⟨c, hc, s, rfl⟩ | ⟨heq, hne⟩
  · exact pushAmbo_eq_plain (head?_ne_of_pushDual (h.dual s rfl).1)
  · rw [Alphabet.mem_fixedSeeds] at hc
    rcases hc with rfl | rfl | rfl | rfl | rfl <;> rfl
  · rw [heq, pushAmbo_eq_plain hne]
    rfl

/-- Gyro does not tell a solid from its dual. -/
theorem pushGyro_pushDual (h : t.Settled) : pushGyro (pushDual t) = pushGyro t := by
  rcases pushDual_cases t with ⟨s, rfl⟩ | ⟨c, hc, s, rfl⟩ | ⟨heq, hne⟩
  · exact pushGyro_eq_plain (head?_ne_of_pushDual (h.dual s rfl).1)
  · rw [Alphabet.mem_fixedSeeds] at hc
    rcases hc with rfl | rfl | rfl | rfl | rfl <;> rfl
  · rw [heq, pushGyro_eq_plain hne]
    rfl

protected theorem pushDual (h : t.Settled) : (pushDual t).Settled := by
  rcases pushDual_cases t with ⟨s, rfl⟩ | ⟨c, hc, s, rfl⟩ | ⟨heq, hne⟩
  · obtain ⟨hs, hnil, hfirst⟩ := h.dual s rfl
    refine ⟨hnil, hfirst, fun r hr => ?_⟩
    have hr : s = 'd' :: r := hr
    exact absurd (by rw [hr, List.head?_cons]) (head?_ne_of_pushDual hs)
  · rw [Alphabet.mem_fixedSeeds] at hc
    rcases hc with rfl | rfl | rfl | rfl | rfl <;> exact of_head (by decide) (by decide)
  · rw [heq]
    refine ⟨by simp, by simp [NoDigitFirst], fun r hr => ?_⟩
    obtain rfl := (List.cons.inj hr).2
    exact ⟨heq, h.ne_nil, h.noDigitFirst⟩

end Settled

theorem settled_pushAmbo (t : Text) : (pushAmbo t).Settled := by
  have plain : ∀ t, (pushAmboPlain t).Settled := by
    intro t
    unfold pushAmboPlain
    split <;> exact .of_head (by decide) (by decide)
  unfold pushAmbo
  split <;> exact plain _

theorem settled_pushGyro (t : Text) : (pushGyro t).Settled := by
  have plain : ∀ t, (pushGyroPlain t).Settled := by
    intro t
    unfold pushGyroPlain
    split <;> exact .of_head (by decide) (by decide)
  unfold pushGyro
  split <;> exact plain _

theorem settled_pushFamily {letter platonic : Char} (count t : Text)
    (hl : letter.isDigit = false) (hld : letter ≠ 'd') (hp : platonic.isDigit = false)
    (hpd : platonic ≠ 'd') : (pushFamily letter count platonic t).Settled := by
  unfold pushFamily
  split
  · exact .of_head hp hpd
  · exact .of_head hl hld

theorem settled_pushTruncate (t : Text) : (pushTruncate t).Settled :=
  (Settled.of_head (by decide) (by decide)).pushDual

/-- A letter in front of a settled text makes a settled text. -/
theorem Settled.push {c : Char} {t : Text} (hc : c.isDigit = false) (h : t.Settled) :
    (push c t).Settled := by
  have join : ∀ t : Text, (pushJoin t).Settled := fun t => (settled_pushAmbo _).pushDual
  unfold Text.push
  split
  · exact h.pushDual
  · exact settled_pushAmbo _
  · exact settled_pushGyro _
  · exact join _
  · exact (settled_pushGyro _).pushDual
  · exact settled_pushTruncate _
  · exact settled_pushAmbo _
  · exact settled_pushTruncate _
  · exact join _
  · exact .of_head (by decide) (by decide)
  · exact settled_pushFamily _ _ (by decide) (by decide) (by decide) (by decide)
  · exact settled_pushFamily _ _ (by decide) (by decide) (by decide) (by decide)
  · exact settled_pushFamily _ _ (by decide) (by decide) (by decide) (by decide)
  · next hd _ _ _ _ _ _ _ _ _ _ _ _ => exact .of_head hc hd

end Text

open Text

/-- A letter of a seed stands in front of its canonical form, whatever comes after it. -/
private theorem settled_push_seed {c : Char} (t : Text) (hc : Alphabet.isSeed c = true) :
    (push c t).Settled := by
  rw [Alphabet.isSeed, Bool.or_eq_true] at hc
  rcases hc with hc | hc
  · rcases Alphabet.eq_of_isFixedSeed hc with rfl | rfl | rfl | rfl | rfl
    all_goals exact .of_head (by decide) (by decide)
  · rcases Alphabet.eq_of_isFamilySeed hc with rfl | rfl | rfl
    all_goals exact settled_pushFamily _ _ (by decide) (by decide) (by decide) (by decide)

theorem IsNotation.settled_canonical {t : Text} (h : IsNotation t) : t.canonical.Settled := by
  induction h with
  | seed isSeed =>
    cases isSeed with
    | fixed letter => exact settled_push_seed _ (by simp [Alphabet.isSeed, letter])
    | family letter => exact settled_push_seed _ (by simp [Alphabet.isSeed, letter])
  | @operator o s isOperator rest ih =>
    cases isOperator with
    | plain letter => exact ih.push (Alphabet.of_isPlainOperator letter).2.2.2
    | @selecting c digits letter all_digits value_le =>
      rw [List.cons_append, canonical_cons]
      rcases Alphabet.eq_of_isSelectingOperator letter with rfl | rfl
      · exact Settled.of_head (c := 'k') (by decide) (by decide)
      · exact settled_pushTruncate _

/-! ## Degenerate seeds -/

/-- The text ends in a family letter with the side count of a Platonic solid. -/
def Text.Degenerate (t : Text) : Prop :=
  ['P', '4'] <:+ t ∨ ['A', '3'] <:+ t ∨ ['Y', '3'] <:+ t

instance (t : Text) : Decidable t.Degenerate :=
  inferInstanceAs (Decidable (_ ∨ _ ∨ _))

/-- A letter with a last digit, at the end of a letter with digits, is all there is. -/
theorem Text.pair_suffix_digits {c l d : Char} {ds : Text} (hds : ds.AllDigits)
    (hl : l.isDigit = false) (h : [l, d] <:+ c :: ds) : l = c ∧ ds = [d] := by
  rcases List.suffix_cons_iff.1 h with heq | hin
  · simp_all
  · have := hds l (hin.subset (by simp))
    simp_all

/-- A letter with a last digit lies in the seed, if it ends a notation. -/
theorem IsNotation.pair_suffix_append {c d : Char} {s t : Text} (hd : d.isDigit = true)
    (ht : IsNotation t) : [c, d] <:+ s ++ t ↔ [c, d] <:+ t := by
  refine ⟨fun h => ?_, fun h => h.trans (List.suffix_append s t)⟩
  cases t with
  | nil => exact absurd rfl ht.ne_nil
  | cons e t =>
    cases t with
    | nil =>
      obtain ⟨r, hr⟩ := h
      have hlast := congrArg List.getLast? hr
      have he := ht.noDigitFirst
      rw [noDigitFirst_cons] at he
      simp only [List.getLast?_append, List.getLast?_cons_cons, List.getLast?_singleton,
        Option.some_or, Option.some.injEq] at hlast
      rw [hlast, he] at hd
      exact Bool.noConfusion hd
    | cons f t => exact List.suffix_of_suffix_length_le h (List.suffix_append _ _) (by simp)

theorem IsNotation.degenerate_append {s t : Text} (ht : IsNotation t) :
    Degenerate (s ++ t) ↔ Degenerate t := by
  unfold Degenerate
  rw [ht.pair_suffix_append (by decide), ht.pair_suffix_append (by decide),
    ht.pair_suffix_append (by decide)]

theorem IsNotation.degenerate_cons {c : Char} {t : Text} (ht : IsNotation t) :
    Degenerate (c :: t) ↔ Degenerate t :=
  ht.degenerate_append (s := [c])

theorem Text.EndsIn.not_degenerate {t : Text} (h : t.EndsIn Alphabet.fixedSeeds) :
    ¬ t.Degenerate := by
  obtain ⟨c, hc, hlast⟩ := h
  have hdigit : ∀ d : Char, d.isDigit = true → c ≠ d := by
    rintro d hd rfl
    have table : ∀ c ∈ Alphabet.fixedSeeds, c.isDigit = false :=
      Alphabet.forall_mem_of_all (by decide)
    simp [table c hc] at hd
  have last : ∀ l d : Char, [l, d] <:+ t → c = d := by
    rintro l d ⟨r, rfl⟩
    simpa [List.getLast?_append, eq_comm] using hlast
  rintro (h | h | h)
  · exact hdigit '4' (by decide) (last _ _ h)
  · exact hdigit '3' (by decide) (last _ _ h)
  · exact hdigit '3' (by decide) (last _ _ h)

/-! ## One rule at the beginning of a text -/

/--
What a rule may do at the beginning of a notation: the outcome is a notation
with the same canonical form, and with a degenerate seed only if there was one.
-/
structure Agrees (t u : Text) : Prop where
  isNotation : IsNotation u
  canonical_eq : u.canonical = t.canonical
  degenerate : u.Degenerate → t.Degenerate

theorem Agrees.refl {t : Text} (h : IsNotation t) : Agrees t t := ⟨h, rfl, id⟩

theorem Agrees.trans {t u v : Text} (htu : Agrees t u) (huv : Agrees u v) : Agrees t v :=
  ⟨huv.isNotation, huv.canonical_eq.trans htu.canonical_eq, htu.degenerate ∘ huv.degenerate⟩

/-- Putting the same text in front of two that agree makes two that agree. -/
theorem Agrees.append_left {before after u : Text} {c : Char} (hc : c.isDigit = false)
    (h : IsNotation (before ++ c :: after))
    (hstep : IsNotation (c :: after) → Agrees (c :: after) u) :
    Agrees (before ++ c :: after) (before ++ u) := by
  obtain ⟨hcut, hput⟩ := h.context hc
  have hu := hstep hcut
  refine ⟨hput hu.isNotation, ?_, fun hdeg => ?_⟩
  · rw [canonical_append, canonical_append, hu.canonical_eq]
  · exact hcut.degenerate_append.2 (hu.degenerate (hu.isNotation.degenerate_append.1 hdeg))

section Heads

variable {w : Text}

theorem isNotation_truncate_cons (h : w.NoDigitFirst) : IsNotation ('t' :: w) ↔ IsNotation w := by
  have := isNotation_selecting_cons (c := 't') (by decide) Text.allDigits_nil h
  simpa [value, maxNumber] using this

theorem isNotation_kis_cons (h : w.NoDigitFirst) : IsNotation ('k' :: w) ↔ IsNotation w := by
  have := isNotation_selecting_cons (c := 'k') (by decide) Text.allDigits_nil h
  simpa [value, maxNumber] using this

/-- Operators in front of a notation are exchanged for others. -/
private theorem agrees_of_operators {p q : Text} (hw : IsNotation w) (hq : IsNotation (q ++ w))
    (heq : (q ++ w).canonical = (p ++ w).canonical) : Agrees (p ++ w) (q ++ w) :=
  ⟨hq, heq, fun h => hw.degenerate_append.2 (hw.degenerate_append.1 h)⟩

/-- An operator in front of a fixed seed gives way to a fixed seed, or stays in front of one. -/
private theorem agrees_of_fixed {p q : Text} {c : Char} (hc : Alphabet.isFixedSeed c = true)
    (hq : IsNotation q) (heq : q.canonical = (p ++ [c]).canonical) (hend : ¬ q.Degenerate)
    (h : IsNotation (p ++ c :: w)) : Agrees (p ++ c :: w) (q ++ w) := by
  have hcw := (h.context (Alphabet.of_isFixedSeed hc).2.2.2).1
  rw [isNotation_fixed_cons hc] at hcw
  subst hcw
  rw [List.append_nil]
  exact ⟨hq, heq, fun h => absurd h hend⟩

/-- Ambo of a pyramid is an antiprism, and that of a tetrahedron an octahedron. -/
private theorem agrees_of_pyramid (h : IsNotation ('a' :: 'Y' :: w)) :
    Agrees ('a' :: 'Y' :: w) ('A' :: w) := by
  have hsides : IsSides w := by
    rwa [isNotation_plain_cons (by decide), isNotation_family_cons (by decide)] at h
  have hcanon : w.canonical = w := by simpa [canonical] using canonical_digits hsides.all_digits []
  have hY : IsNotation ('Y' :: w) := .family (by decide) hsides
  refine ⟨.family (by decide) hsides, ?_, fun hdeg => ?_⟩
  · simp only [canonical_cons, hcanon]
    by_cases hw : w = ['3']
    · subst hw
      rfl
    · simp [push, pushFamily, hw, pushAmbo, pushAmboPlain]
  · -- only `A3` is degenerate, and then so is `Y3`
    rw [hY.degenerate_cons]
    rcases hdeg with h | h | h
    · exact absurd (pair_suffix_digits hsides.all_digits (by decide) h).1 (by decide)
    · rw [(pair_suffix_digits hsides.all_digits (by decide) h).2]
      decide
    · exact absurd (pair_suffix_digits hsides.all_digits (by decide) h).1 (by decide)

theorem isNotation_plain_append {p : Text} (hp : p.all Alphabet.isPlainOperator = true) :
    IsNotation (p ++ w) ↔ IsNotation w := by
  induction p with
  | nil => rfl
  | cons c p ih =>
    rw [List.all_cons, Bool.and_eq_true] at hp
    rw [List.cons_append, isNotation_plain_cons hp.1, ih hp.2]

/-- Every literal rule of the table agrees at the beginning of a notation. -/
theorem agrees_of_literal {p q : Text} (hr : Rule.literal p q ∈ Rule.table)
    (h : IsNotation (p ++ w)) : Agrees (p ++ w) (q ++ w) := by
  simp only [Rule.table, List.mem_cons, reduceCtorEq, Rule.literal.injEq, false_or,
    List.not_mem_nil, or_false] at hr
  have hplain : p.all Alphabet.isPlainOperator = true → IsNotation w := fun hp =>
    (isNotation_plain_append hp).1 h
  rcases hr with ⟨rfl, rfl⟩ | ⟨rfl, rfl⟩ | ⟨rfl, rfl⟩ | ⟨rfl, rfl⟩ | ⟨rfl, rfl⟩ | ⟨rfl, rfl⟩ |
    ⟨rfl, rfl⟩ | ⟨rfl, rfl⟩ | ⟨rfl, rfl⟩ | ⟨rfl, rfl⟩ | hr
  · have hw := hplain (by decide)
    exact agrees_of_operators hw ((isNotation_plain_append (by decide)).2 hw) rfl
  · have hw := hplain (by decide)
    refine agrees_of_operators hw ?_ rfl
    have hfirst : NoDigitFirst ('a' :: w) := by simp
    exact (isNotation_truncate_cons hfirst).2 (.plain (by decide) hw)
  · have hw := hplain (by decide)
    exact agrees_of_operators hw ((isNotation_plain_append (by decide)).2 hw) rfl
  · have hw := hplain (by decide)
    refine agrees_of_operators hw ?_ rfl
    have hfirst : NoDigitFirst ('j' :: w) := by simp
    exact (isNotation_kis_cons hfirst).2 (.plain (by decide) hw)
  · have hw := hplain (by decide)
    exact agrees_of_operators hw ((isNotation_plain_append (by decide)).2 hw) rfl
  · have hw := hplain (by decide)
    exact agrees_of_operators hw ((isNotation_plain_append (by decide)).2 hw) rfl
  · have hw := hplain (by decide)
    exact agrees_of_operators hw hw hw.settled_canonical.pushDual_pushDual.symm
  · have hw := hplain (by decide)
    exact agrees_of_operators hw ((isNotation_plain_append (by decide)).2 hw)
      hw.settled_canonical.pushAmbo_pushDual.symm
  · have hw := hplain (by decide)
    exact agrees_of_operators hw ((isNotation_plain_append (by decide)).2 hw)
      hw.settled_canonical.pushGyro_pushDual.symm
  · exact agrees_of_pyramid h
  · have fixed : ∀ {c : Char}, Alphabet.isFixedSeed c = true → IsNotation [c] := fun hc => .fixed hc
    rcases hr with ⟨rfl, rfl⟩ | ⟨rfl, rfl⟩ | ⟨rfl, rfl⟩ | ⟨rfl, rfl⟩ | ⟨rfl, rfl⟩ | ⟨rfl, rfl⟩ |
      ⟨rfl, rfl⟩ | ⟨rfl, rfl⟩ | ⟨rfl, rfl⟩ | ⟨rfl, rfl⟩ | ⟨rfl, rfl⟩
    iterate 7
      · exact agrees_of_fixed (p := [_]) (by decide) (fixed (by decide)) rfl (by decide) h
    all_goals
      exact agrees_of_fixed (p := [_]) (by decide) (.plain (by decide) (fixed (by decide))) rfl
        (by decide) h

/-- Truncation agrees with kis between two duals. -/
theorem agrees_of_truncate {ds : Text} (hds : ds.AllDigits) (hw : w.NoDigitFirst)
    (h : IsNotation ('t' :: (ds ++ w))) :
    Agrees ('t' :: (ds ++ w)) (['d', 'k'] ++ ds ++ ['d'] ++ w) := by
  obtain ⟨hle, hrest⟩ := (isNotation_selecting_cons (by decide) hds hw).1 h
  have hfirst := hrest.settled_canonical.noDigitFirst
  have hdual : IsNotation ('d' :: w) := .plain (by decide) hrest
  have hkis : IsNotation ('k' :: (ds ++ 'd' :: w)) := .selecting (by decide) hds hle hdual
  have hnew : ['d', 'k'] ++ ds ++ ['d'] ++ w = ['d', 'k'] ++ ds ++ 'd' :: w := by simp
  refine ⟨?_, ?_, fun hdeg => ?_⟩
  · simpa using IsNotation.plain (c := 'd') (by decide) hkis
  · have hold : canonical ('t' :: (ds ++ w)) = pushTruncate (ds ++ w.canonical) := by
      rw [canonical_cons, canonical_digits hds]
      rfl
    rw [hold, pushTruncate, takeWhile_digits_append hds hfirst, dropWhile_digits_append hds hfirst,
      hnew, canonical_append, List.foldr_append, foldr_push_digits hds]
    rfl
  · rw [hrest.degenerate_append] at hdeg
    exact hrest.degenerate_append (s := 't' :: ds) |>.2 hdeg

end Heads

/-! ## One rule anywhere in a notation -/

/-- What the rule looks for begins with a letter. -/
def Rule.startsWithLetter : Rule → Bool
  | literal (c :: _) _ | suffix (c :: _) _ | argument c _ _ => !c.isDigit
  | literal [] _ | suffix [] _ => false

theorem Rule.startsWithLetter_of_mem_table : ∀ r ∈ table, r.startsWithLetter = true := by
  decide

theorem Rule.hasPattern_of_mem_table {r : Rule} (hr : r ∈ table) : r.HasPattern := by
  have := startsWithLetter_of_mem_table r hr
  unfold startsWithLetter at this
  split at this <;> simp_all [HasPattern]

private theorem head_of_literal {p q : Text} (hr : Rule.literal p q ∈ Rule.table) :
    ∃ c s, p = c :: s ∧ c.isDigit = false := by
  have := Rule.startsWithLetter_of_mem_table _ hr
  cases p with
  | nil => simp [Rule.startsWithLetter] at this
  | cons c s => exact ⟨c, s, rfl, by simpa [Rule.startsWithLetter] using this⟩

/-- Replacing one occurrence by any rule but those for degenerate seeds. -/
theorem Agrees.of_replaces {r : Rule} {t u : Text} (hr : r ∈ Rule.table)
    (hsuffix : ∀ p q, r ≠ .suffix p q) (hstep : r.Replaces t u) (h : IsNotation t) :
    Agrees t u := by
  cases hstep with
  | literal pattern replacement before after =>
    obtain ⟨c, s, rfl, hc⟩ := head_of_literal hr
    rw [List.append_assoc, List.cons_append] at h
    have := Agrees.append_left hc h fun hcut => agrees_of_literal (p := c :: s) hr hcut
    simpa using this
  | suffix pattern replacement before => exact absurd rfl (hsuffix _ _)
  | argument letter left right before digits after all_digits maximal =>
    obtain ⟨rfl, rfl, rfl⟩ : letter = 't' ∧ left = ['d', 'k'] ∧ right = ['d'] := by
      simpa [Rule.table] using hr
    rw [List.append_assoc, List.cons_append] at h
    have := Agrees.append_left (by decide) h fun hcut =>
      agrees_of_truncate all_digits maximal hcut
    simpa using this

/--
Replacing one occurrence of what a rule looks for keeps the grammar and the
canonical form.
-/
theorem IsNotation.of_replaces {r : Rule} {t u : Text} (hr : r ∈ Rule.table)
    (hstep : r.Replaces t u) (h : IsNotation t) :
    IsNotation u ∧ u.canonical = t.canonical := by
  by_cases hsuffix : ∀ p q, r ≠ .suffix p q
  · have := Agrees.of_replaces hr hsuffix hstep h
    exact ⟨this.isNotation, this.canonical_eq⟩
  · push Not at hsuffix
    obtain ⟨p, q, rfl⟩ := hsuffix
    cases hstep with
    | suffix pattern replacement before =>
      have collapse : ∀ {c d : Char} {q : Text}, p = [c, d] → c.isDigit = false → IsNotation q →
          q.canonical = canonical [c, d] →
          IsNotation (before ++ q) ∧ (before ++ q).canonical = (before ++ p).canonical := by
        rintro c d q rfl hc hq heq
        refine ⟨(h.context hc).2 hq, ?_⟩
        rw [canonical_append, canonical_append, heq]
      simp only [Rule.table, List.mem_cons, reduceCtorEq, Rule.suffix.injEq, List.not_mem_nil,
        or_false] at hr
      rcases hr with ⟨rfl, rfl⟩ | ⟨rfl, rfl⟩ | ⟨rfl, rfl⟩
      all_goals exact collapse rfl (by decide) (.fixed (by decide)) rfl

end Polyhedra
