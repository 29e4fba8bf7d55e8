import Polyhedra.Proofs.Notation.Arguments

/-!
# Leading zeros

A number may be written with leading zeros, but what is built is named without
them: the name of a solid spells each number out afresh.  So the name is the
canonical notation with the leading zeros left out (`Text.terse`), and it is the
canonical notation itself just when no number has any.

## Main results

* `Text.ofNat_value` — a number written out afresh is its digits without leading
  zeros.
* `Program.Reads.spelling_eq` — the name is the notation without leading zeros.
* `IsNotation.terse_numbers_reduce_iff` — reduction neither adds nor removes leading zeros.
-/

namespace Polyhedra

/-! ## Digits -/

namespace Text

/-- The digits without the zeros in front; of zeros alone the last one stays. -/
def dropZeros : Text → Text
  | '0' :: d :: digits => dropZeros (d :: digits)
  | digits => digits

/-- A zero stands in front of further digits. -/
def isPadded : Text → Bool
  | '0' :: _ :: _ => true
  | _ => false

variable {c : Char} {ds : Text}

@[simp]
theorem isPadded_nil : isPadded [] = false := rfl

@[simp]
theorem isPadded_singleton : isPadded [c] = false := by simp [isPadded]

theorem length_dropZeros_le (ds : Text) : ds.dropZeros.length ≤ ds.length := by
  fun_induction dropZeros ds with
  | case1 d digits ih => exact Nat.le_succ_of_le ih
  | case2 digits => exact Nat.le_refl _

theorem dropZeros_eq_self_iff : ds.dropZeros = ds ↔ ds.isPadded = false := by
  fun_cases isPadded ds with
  | case1 d digits =>
    have hshorter : dropZeros ('0' :: d :: digits) ≠ '0' :: d :: digits := by
      intro heq
      have hlength := length_dropZeros_le (d :: digits)
      have hsame : (dropZeros (d :: digits)).length = digits.length + 2 := congrArg List.length heq
      simp only [List.length_cons] at hlength
      omega
    simp [hshorter]
  | case2 digits hnot => simp [dropZeros]

theorem allDigits_dropZeros (hds : ds.AllDigits) : ds.dropZeros.AllDigits := by
  fun_induction dropZeros ds with
  | case1 d digits ih => exact ih (allDigits_cons.1 hds).2
  | case2 digits => exact hds

/-- A digit is the one that is written for its value. -/
theorem digitChar_toNat (hc : c.isDigit = true) :
    c.toNat - '0'.toNat < 10 ∧ (c.toNat - '0'.toNat).digitChar = c := by
  rw [Char.isDigit_iff_toNat] at hc
  have hzero : '0'.toNat = 48 := rfl
  have hnine : '9'.toNat = 57 := rfl
  have hlt : c.toNat - '0'.toNat < 10 := by omega
  refine ⟨hlt, Char.toNat_inj.1 ?_⟩
  rw [Nat.toNat_digitChar_of_lt_ten hlt]
  omega

/-- Digits behind a positive number are written behind it. -/
theorem toDigits_append (hds : ds.AllDigits) {n : Nat} (hn : 0 < n) :
    Nat.toDigits 10 n ++ ds =
      Nat.toDigits 10 (ds.foldl (fun n c => 10 * n + (c.toNat - '0'.toNat)) n) := by
  induction ds generalizing n with
  | nil => simp
  | cons c ds ih =>
    rw [allDigits_cons] at hds
    obtain ⟨hlt, hchar⟩ := digitChar_toNat hds.1
    have hstep := Nat.toDigits_append_toDigits (b := 10) (by decide) hn hlt
    rw [Nat.toDigits_of_lt_base hlt, hchar] at hstep
    rw [List.foldl_cons, ← ih hds.2 (by omega), ← hstep, List.append_assoc, List.singleton_append]

/-- A number that is written out is its digits without leading zeros. -/
theorem ofNat_value (hds : ds.AllDigits) (hne : ds ≠ []) : ofNat ds.value = ds.dropZeros := by
  fun_induction dropZeros ds with
  | case1 d digits ih => exact ih (allDigits_cons.1 hds).2 (by simp)
  | case2 digits hnot =>
    obtain ⟨c, rest, rfl⟩ := List.exists_cons_of_ne_nil hne
    rw [allDigits_cons] at hds
    obtain ⟨hlt, hchar⟩ := digitChar_toNat hds.1
    by_cases hzero : c = '0'
    · subst hzero
      cases rest with
      | nil => decide
      | cons d rest => exact absurd rfl (hnot d rest)
    · have hpos : 0 < c.toNat - '0'.toNat :=
        Nat.pos_of_ne_zero fun heq => hzero (by rw [← hchar, heq]; rfl)
      have hwhole := toDigits_append hds.2 hpos
      rw [Nat.toDigits_of_lt_base hlt, hchar] at hwhole
      have hvalue : value (c :: rest) =
          rest.foldl (fun n c => 10 * n + (c.toNat - '0'.toNat)) (c.toNat - '0'.toNat) := by
        simp [value]
      rw [ofNat, hvalue, ← hwhole, List.singleton_append]

example : ofNat (value ['0', '0', '7', '0']) = ['7', '0'] := by decide

end Text

/-! ## Texts -/

/-- The lexeme with its number written without leading zeros. -/
def Lexeme.terse (l : Lexeme) : Lexeme := ⟨l.symbol, l.digits.dropZeros⟩

theorem Lexeme.Proper.terse {l : Lexeme} (h : l.Proper) : l.terse.Proper :=
  ⟨h.symbol, Text.allDigits_dropZeros h.digits⟩

theorem Lexeme.terse_eq_self_iff {l : Lexeme} : l.terse = l ↔ l.digits.isPadded = false := by
  obtain ⟨symbol, digits⟩ := l
  simp [terse, Text.dropZeros_eq_self_iff]

/-- The text with each number behind a letter written without leading zeros. -/
def Text.terse (t : Text) : Text := t.lex.1 ++ Lexeme.join (t.lex.2.map Lexeme.terse)

/-- None of the numbers is written with leading zeros. -/
def Text.Numbers.Terse (n : Text.Numbers) : Prop :=
  ∀ digits ∈ n.sideCount :: n.selectors, digits.isPadded = false

instance (n : Text.Numbers) : Decidable n.Terse :=
  inferInstanceAs (Decidable (∀ digits ∈ n.sideCount :: n.selectors, digits.isPadded = false))

/-! ## Programs -/

namespace Lexeme

variable {l : Lexeme}

/-- The operation that a lexeme stands for is spelled without leading zeros. -/
theorem lexeme_of_operation? {op : Operation} (hl : l.Proper) (h : l.operation? = some op) :
    op.lexeme = l.terse := by
  have hsymbol := symbol_of_operation? h
  cases op with
  | kis sides =>
    have hselector := selector?_of_operation? h
    rw [selector?, hsymbol] at hselector
    have hsides : sides = l.digits.number? := Option.some.inj hselector
    rw [terse, hsymbol, hsides, Text.number?]
    split
    · next hd =>
      rw [hd]
      rfl
    · next hd =>
      rw [← Text.ofNat_value hl.digits hd]
      rfl
  | _ =>
    have hd : l.digits = [] := digits_eq_nil_of_operation? h rfl
    rw [terse, hsymbol, hd]
    rfl

/-- The seed that a lexeme stands for is spelled without leading zeros. -/
theorem lexeme_of_seed? {seed : Seed} (hl : l.Proper) (h : l.seed? = some seed) :
    seed.lexeme = l.terse := by
  have hsymbol := symbol_of_seed? h
  have hsides := sides?_of_seed? h
  rw [Seed.lexeme, terse, hsymbol, hsides, Text.number?]
  split
  · next hd =>
    rw [hd]
    rfl
  · next hd =>
    rw [← Text.ofNat_value hl.digits hd]
    rfl

end Lexeme

theorem Token.Along.map_lexeme {start : Nat} {ls : List Lexeme} {ts : List Token}
    (h : Along start ls ts) (hproper : ∀ l ∈ ls, l.Proper) :
    ts.map (fun t => t.operation.lexeme) = ls.map Lexeme.terse := by
  induction h with
  | nil => rfl
  | @cons start l ls t ts operation span rest ih =>
    rw [List.forall_mem_cons] at hproper
    rw [List.map_cons, List.map_cons, ih hproper.2,
      Lexeme.lexeme_of_operation? hproper.1 operation]

namespace Program.Reads

variable {p : Program} {front : List Lexeme} {last : Lexeme} (h : p.Reads front last)
include h

/-- What a program describes has the name of its notation, without leading zeros. -/
theorem spelling_eq : spelling (p.operations.map Token.operation) p.seed = p.text.terse := by
  have hfront := h.operations.map_lexeme fun l hl => h.proper l (List.mem_append_left _ hl)
  have hlast := Lexeme.lexeme_of_seed? (h.proper last (by simp)) h.seed
  rw [spelling_eq_join, Text.terse, h.lex_text, List.map_map, List.map_append, List.map_singleton,
    ← hfront, ← hlast]
  rfl

/-- All digits of a notation stand in its numbers. -/
theorem terse_numbers_iff :
    p.text.numbers.Terse ↔ ∀ l ∈ front ++ [last], l.digits.isPadded = false := by
  have hselectors : p.text.numbers.selectors = (front ++ [last]).filterMap Lexeme.selector? := by
    rw [Text.numbers, h.lex_text]
  rw [Text.Numbers.Terse, List.forall_mem_cons, hselectors, h.sideCount_eq]
  constructor
  · rintro ⟨hcount, hselected⟩ l hl
    by_cases hd : l.digits = []
    · rw [hd]
      rfl
    · rcases List.mem_append.1 hl with hfront | hlast
      · obtain ⟨op, hop⟩ := h.operations.exists_operation hfront
        have hkis : l.selector? = some l.digits := by
          rw [Lexeme.selector?, Lexeme.symbol_eq_of_digits hop hd]
          rfl
        exact hselected _ (List.mem_filterMap.2 ⟨l, hl, hkis⟩)
      · rw [List.mem_singleton.1 hlast]
        exact hcount
  · refine fun hall => ⟨hall last (by simp), fun digits hmem => ?_⟩
    obtain ⟨l, hl, hsome⟩ := List.mem_filterMap.1 hmem
    rw [Lexeme.selector?, Option.ite_none_right_eq_some] at hsome
    rw [← Option.some.inj hsome.2]
    exact hall l hl

/-- A notation is the name of what it describes just when its numbers have no leading zeros. -/
theorem terse_eq_self_iff : p.text.terse = p.text ↔ p.text.numbers.Terse := by
  have hterse : ∀ l ∈ (front ++ [last]).map Lexeme.terse, l.Proper := by
    intro l hl
    obtain ⟨l', hl', rfl⟩ := List.mem_map.1 hl
    exact (h.proper l' hl').terse
  have hmap : p.text.terse = p.text ↔ (front ++ [last]).map Lexeme.terse = front ++ [last] := by
    rw [Text.terse, h.lex_text, List.nil_append, h.text]
    exact ⟨Lexeme.join_inj hterse h.proper, congrArg _⟩
  rw [hmap, h.terse_numbers_iff]
  have hsame := List.map_inj_left (l := front ++ [last]) (f := Lexeme.terse) (g := id)
  rw [List.map_id] at hsame
  rw [hsame]
  exact forall₂_congr fun l _ => Lexeme.terse_eq_self_iff

end Program.Reads

/-! ## Reduction -/

/-- The side count of a Platonic solid in disguise is a single digit. -/
theorem Text.Degenerate.isPadded_sideCount {t : Text} (h : t.Degenerate) :
    t.numbers.sideCount.isPadded = false := by
  have single : ∀ {c d : Char}, c.isDigit = false → d.isDigit = true → [c, d] <:+ t →
      t.numbers.sideCount.isPadded = false := by
    rintro c d hc hd ⟨s, rfl⟩
    have hdigits : AllDigits [d] := by simpa [AllDigits] using hd
    rw [sideCount_append_cons hc, numbers_digits hdigits, isPadded_singleton]
  rcases h with hend | hend | hend
  · exact single (by decide) (by decide) hend
  · exact single (by decide) (by decide) hend
  · exact single (by decide) (by decide) hend

/-- Reduction neither adds leading zeros nor takes them away. -/
theorem IsNotation.terse_numbers_reduce_iff {t : Text} (h : IsNotation t) :
    t.reduce.output.numbers.Terse ↔ t.numbers.Terse := by
  rw [h.output_reduce_eq_canonical, h.numbers_canonical]
  split
  · next hdegenerate =>
    simp [Text.Numbers.Terse, Text.Numbers.sideless, hdegenerate.isPadded_sideCount]
  · rfl

end Polyhedra
