import Polyhedra.Proofs.Notation.Confluence
import Mathlib.Data.List.TakeWhile

/-!
# Reading programs

A program is read lexeme by lexeme: `Lexeme.operation?` is the operation that a
lexeme stands for, and `Lexeme.seed?` the seed.  A number may be written with
leading zeros, so that several lexemes stand for one operation.
`Program.Reads` relates a program to the lexemes of its notation, with the
places where its tokens begin.

A solid is named after its operations and its seed without leading zeros
(`spelling`).  A program whose notation ends in such a name, from the beginning
of a token on, ends in these very operations and has this very seed.

## Main results

* `Program.parse_eq_ok_iff` — what is read from a text, part by part.
* `Program.exists_reads` — every program is read from the lexemes of its notation.
* `Program.Reads.of_suffix_tokens` — a name at the end of a notation, from a token
  on, spells the tokens from there on.
* `parse_of_isNotation` — a notation without aliases is read as a program.
* `compile_of_validate` — a valid notation compiles.
-/

namespace Polyhedra

/-! ## Decimal numbers -/

namespace Text

theorem allDigits_ofNat (n : Nat) : (ofNat n).AllDigits :=
  fun _ h => Nat.isDigit_of_mem_toDigits (by decide) (by decide) h

theorem value_ofNat (n : Nat) : (ofNat n).value = n :=
  Nat.ofDigitChars_eq_foldl.symm.trans Nat.ofDigitChars_ten_toDigits

theorem ofNat_ne_nil (n : Nat) : ofNat n ≠ [] := Nat.toDigits_ne_nil

/-- Of two ends of a text, the one with as many bytes as the other is the other. -/
theorem eq_of_suffix {s t u v : Text} (h : s ++ t = u ++ v) (hlen : s.byteLength = u.byteLength) :
    s = u ∧ t = v := by
  induction s generalizing u with
  | nil =>
    cases u with
    | nil => exact ⟨rfl, h⟩
    | cons d u =>
      have := d.utf8Size_pos
      simp only [byteLength] at hlen
      omega
  | cons c s ih =>
    cases u with
    | nil =>
      have := c.utf8Size_pos
      simp only [byteLength] at hlen
      omega
    | cons d u =>
      obtain ⟨rfl, hrest⟩ := List.cons.inj h
      simp only [byteLength] at hlen
      obtain ⟨rfl, rfl⟩ := ih hrest (by omega)
      exact ⟨rfl, rfl⟩

end Text

/-! ## What lexemes stand for -/

namespace Lexeme

/-- The operation that a lexeme stands for; only kis may carry a number. -/
def operation? (l : Lexeme) : Option Operation :=
  match Operation.ofSymbol? l.symbol with
  | none => none
  | some op =>
    if l.digits = [] then some op
    else
      match op with
      | .kis _ => some (.kis (some l.digits.value))
      | _ => none

/-- The seed that a lexeme stands for. -/
def seed? (l : Lexeme) : Option Seed :=
  Seed.ofSymbol? l.symbol (if l.digits = [] then none else some l.digits.value)

variable {l : Lexeme}

theorem symbol_of_operation? {op : Operation} (h : l.operation? = some op) :
    l.symbol = op.symbol := by
  have letter : ∀ c op, Operation.ofSymbol? c = some op → c = op.symbol := by
    intro c op hc
    unfold Operation.ofSymbol? at hc
    split at hc <;> cases hc <;> rfl
  unfold operation? at h
  split at h
  · simp at h
  · next op' hop =>
    have hsymbol := letter _ _ hop
    split at h
    · exact Option.some.inj h ▸ hsymbol
    · split at h
      · exact Option.some.inj h ▸ hsymbol
      · simp at h

/-- A seed has the letter and the side count that it is made with. -/
theorem of_seedOfSymbol? {c : Char} {sides? : Option Nat} {seed : Seed}
    (h : Seed.ofSymbol? c sides? = some seed) : c = seed.symbol ∧ seed.sides? = sides? := by
  unfold Seed.ofSymbol? at h
  split at h <;> cases h <;> exact ⟨rfl, rfl⟩

theorem symbol_of_seed? {seed : Seed} (h : l.seed? = some seed) : l.symbol = seed.symbol :=
  (of_seedOfSymbol? h).1

end Lexeme

/-- The lexeme that spells the operation without leading zeros. -/
def Operation.lexeme : Operation → Lexeme
  | .kis (some n) => ⟨'k', Text.ofNat n⟩
  | op => ⟨op.symbol, []⟩

/-- The lexeme that spells the seed without leading zeros. -/
def Seed.lexeme (s : Seed) : Lexeme := ⟨s.symbol, (s.sides?.map Text.ofNat).getD []⟩

theorem Operation.text_lexeme (op : Operation) : op.lexeme.text = op.text := by
  cases op with
  | kis sides => cases sides <;> rfl
  | _ => rfl

theorem Operation.operation?_lexeme (op : Operation) : op.lexeme.operation? = some op := by
  cases op with
  | kis sides =>
    cases sides with
    | none => rfl
    | some n =>
      have hvalue := Text.value_ofNat n
      have hne := Text.ofNat_ne_nil n
      simp [Operation.lexeme, Lexeme.operation?, Operation.ofSymbol?, hvalue, hne]
  | _ => rfl

theorem Seed.text_lexeme (s : Seed) : s.lexeme.text = s.text := rfl

theorem Seed.seed?_lexeme (s : Seed) : s.lexeme.seed? = some s := by
  have family : ∀ n, (if Text.ofNat n = [] then none else some (Text.ofNat n).value) = some n := by
    intro n
    rw [if_neg (Text.ofNat_ne_nil n), Text.value_ofNat]
  cases s with
  | prism n => exact congrArg (Seed.ofSymbol? 'P') (family n)
  | antiprism n => exact congrArg (Seed.ofSymbol? 'A') (family n)
  | pyramid n => exact congrArg (Seed.ofSymbol? 'Y') (family n)
  | _ => rfl

theorem Operation.proper_lexeme (op : Operation) : op.lexeme.Proper := by
  cases op with
  | kis sides =>
    cases sides with
    | none => exact ⟨by decide, by simp [Operation.lexeme]⟩
    | some n => exact ⟨(by decide : 'k'.isDigit = false), Text.allDigits_ofNat n⟩
  | _ => exact ⟨by decide, by simp [Operation.lexeme]⟩

theorem Seed.proper_lexeme (s : Seed) : s.lexeme.Proper := by
  cases s with
  | prism n => exact ⟨(by decide : 'P'.isDigit = false), Text.allDigits_ofNat n⟩
  | antiprism n => exact ⟨(by decide : 'A'.isDigit = false), Text.allDigits_ofNat n⟩
  | pyramid n => exact ⟨(by decide : 'Y'.isDigit = false), Text.allDigits_ofNat n⟩
  | _ => exact ⟨by decide, by simp [Seed.lexeme, Seed.sides?]⟩

/-- The name of what the operations make of the seed. -/
def spelling (ops : List Operation) (seed : Seed) : Text := ops.flatMap Operation.text ++ seed.text

theorem spelling_cons (op : Operation) (ops : List Operation) (seed : Seed) :
    spelling (op :: ops) seed = op.text ++ spelling ops seed := by
  simp [spelling]

theorem spelling_eq_join (ops : List Operation) (seed : Seed) :
    spelling ops seed = Lexeme.join (ops.map Operation.lexeme ++ [seed.lexeme]) := by
  simp [spelling, Lexeme.join, List.flatMap_map, Operation.text_lexeme, Seed.text_lexeme]

/-! ## Tokens -/

namespace Token

/-- A token is read if the lexeme stands for an operation and its number is not too large. -/
theorem ofLexeme_eq_ok_iff {whole : Text} {start : Nat} {l : Lexeme} {t : Token} :
    ofLexeme whole start l = .ok t ↔
      l.operation? = some t.operation ∧ t.span = ⟨start, start + l.width⟩ ∧
        l.digits.value ≤ maxNumber := by
  have hzero : Text.value [] ≤ maxNumber := by decide
  obtain ⟨op, span⟩ := t
  unfold ofLexeme Lexeme.operation?
  cases Operation.ofSymbol? l.symbol with
  | none => simp
  | some found =>
    by_cases hd : l.digits = []
    · simp [hd, hzero, eq_comm]
    · simp only [hd, if_false]
      cases found with
      | kis sides =>
        by_cases hle : l.digits.value ≤ maxNumber
        · simp [Text.readNumber_eq_ok_iff.2 ⟨rfl, hle⟩, hle, Except.map, eq_comm]
        · simp [Text.readNumber, hle, Except.map]
      | _ => simp

/--
The tokens stand for the lexemes, one for each; the first lexeme starts at byte
`start`.
-/
inductive Along : Nat → List Lexeme → List Token → Prop where
  | nil {start : Nat} : Along start [] []
  | cons {start : Nat} {l : Lexeme} {ls : List Lexeme} {t : Token} {ts : List Token}
    (operation : l.operation? = some t.operation) (span : t.span = ⟨start, start + l.width⟩)
    (rest : Along (start + l.width) ls ts) : Along start (l :: ls) (t :: ts)

/-- Tokens are read if they stand for the lexemes and no number is too large. -/
theorem ofLexemes_eq_ok_iff {whole : Text} {start : Nat} {ls : List Lexeme} {ts : List Token} :
    ofLexemes whole start ls = .ok ts ↔
      Along start ls ts ∧ ∀ l ∈ ls, l.digits.value ≤ maxNumber := by
  induction ls generalizing start ts with
  | nil =>
    constructor
    · intro h
      cases h
      exact ⟨.nil, by simp⟩
    · intro h
      cases h.1 with
      | nil => rfl
  | cons l ls ih =>
    rw [List.forall_mem_cons]
    unfold ofLexemes
    constructor
    · intro h
      cases hfirst : ofLexeme whole start l with
      | error e => simp [hfirst] at h
      | ok t =>
        obtain ⟨operation, span, hfits⟩ := ofLexeme_eq_ok_iff.1 hfirst
        cases hrest : ofLexemes whole (start + l.width) ls with
        | error e => simp [hfirst, hrest, Except.map] at h
        | ok rest =>
          simp only [hfirst, hrest, Except.map, Except.ok.injEq] at h
          subst h
          have hread := ih.1 hrest
          exact ⟨.cons operation span hread.1, hfits, hread.2⟩
    · intro h
      cases h.1 with
      | @cons _ _ _ t rest operation span hrest =>
        have hfirst : ofLexeme whole start l = .ok t :=
          ofLexeme_eq_ok_iff.2 ⟨operation, span, h.2.1⟩
        simp only [hfirst, ih.2 ⟨hrest, h.2.2⟩, Except.map]

theorem exists_ofLexemes (whole : Text) (start : Nat) {ls : List Lexeme}
    (h : ∀ l ∈ ls, l.operation?.isSome = true ∧ l.digits.value ≤ maxNumber) :
    ∃ ts, ofLexemes whole start ls = .ok ts := by
  induction ls generalizing start with
  | nil => exact ⟨[], rfl⟩
  | cons l ls ih =>
    obtain ⟨hop, hle⟩ := h l (by simp)
    obtain ⟨op, hop⟩ := Option.isSome_iff_exists.1 hop
    obtain ⟨ts, hts⟩ := ih (start + l.width) fun m hm => h m (by simp [hm])
    have ht : ofLexeme whole start l = .ok ⟨op, ⟨start, start + l.width⟩⟩ :=
      ofLexeme_eq_ok_iff.2 ⟨hop, rfl, hle⟩
    exact ⟨_, by rw [ofLexemes, ht, hts]; rfl⟩

namespace Along

variable {start : Nat} {ls : List Lexeme} {ts us : List Token}

/-- The operations of the tokens are those of the lexemes. -/
theorem map_operation_eq {ops : List Operation} (h : Along start ls ts)
    (hops : ls.map Lexeme.operation? = ops.map some) : ts.map Token.operation = ops := by
  induction h generalizing ops with
  | nil => simpa using hops.symm
  | cons operation _ _ ih =>
    cases ops with
    | nil => simp at hops
    | cons op ops =>
      rw [List.map_cons, List.map_cons, operation, List.cons.injEq] at hops
      rw [List.map_cons, Option.some.inj hops.1, ih hops.2]

/-- Tokens are cut between two lexemes, at the byte where the second one starts. -/
theorem split (h : Along start ls (ts ++ us)) :
    ∃ ms ns, ls = ms ++ ns ∧ Along start ms ts ∧
      Along (start + (Lexeme.join ms).byteLength) ns us := by
  induction ts generalizing start ls with
  | nil => exact ⟨[], ls, rfl, .nil, by simpa [Lexeme.join, Text.byteLength] using h⟩
  | cons t ts ih =>
    cases h with
    | @cons _ l ls _ _ operation span rest =>
      obtain ⟨ms, ns, rfl, hms, hns⟩ := ih rest
      refine ⟨l :: ms, ns, rfl, .cons operation span hms, ?_⟩
      rwa [Lexeme.byteLength_join_cons, ← Nat.add_assoc]

theorem start_eq {t : Token} (h : Along start ls (t :: ts)) : t.span.start = start := by
  cases h with
  | cons _ span _ => rw [span]

/-- The tokens from the first one that starts at byte `boundary` on start there. -/
theorem start_dropWhile {boundary : Nat} (hany : ts.any (·.span.start == boundary) = true)
    (h : Along start ls (ts.dropWhile (·.span.start != boundary))) : boundary = start := by
  cases hdrop : ts.dropWhile (·.span.start != boundary) with
  | nil =>
    obtain ⟨t, ht, hstart⟩ := List.any_eq_true.1 hany
    have hnot := List.dropWhile_eq_nil_iff.1 hdrop t ht
    rw [bne, hstart] at hnot
    exact absurd hnot Bool.false_ne_true
  | cons t rest =>
    have hhead := List.head?_dropWhile_not (fun t : Token => t.span.start != boundary) ts
    rw [hdrop] at h hhead
    simp only [List.head?_cons, bne_eq_false_iff_eq] at hhead
    exact hhead.symm.trans h.start_eq

end Along

end Token

/-! ## Programs -/

namespace Program

/-- The program is read from these lexemes: those of its operations and that of its seed. -/
structure Reads (p : Program) (front : List Lexeme) (last : Lexeme) : Prop where
  proper : ∀ l ∈ front ++ [last], l.Proper
  text : p.text = Lexeme.join (front ++ [last])
  operations : Token.Along 0 front p.operations
  seed : last.seed? = some p.seed
  seedStart : p.seedSpan.start = (Lexeme.join front).byteLength

/-- A seed is read if the lexeme stands for it and its side count is in bounds. -/
theorem readSeed_eq_ok_iff {whole : Text} {start : Nat} {l : Lexeme} {seed : Seed} :
    readSeed whole start l = .ok seed ↔
      l.seed? = some seed ∧
        ∀ n, seed.sides? = some n → minSeedSides ≤ n ∧ n ≤ maxSeedSides := by
  by_cases hletter : Alphabet.isSeed l.symbol = true
  · unfold readSeed Lexeme.seed?
    rw [if_pos hletter]
    by_cases hd : l.digits = []
    · simp only [hd, if_true]
      cases hfound : Seed.ofSymbol? l.symbol none with
      | none => simp
      | some found =>
        have hcount := (Lexeme.of_seedOfSymbol? hfound).2
        constructor
        · intro h
          cases h
          exact ⟨rfl, by simp [hcount]⟩
        · intro h
          rw [Option.some.inj h.1]
    · simp only [hd, if_false]
      by_cases hbounds : minSeedSides ≤ l.digits.value ∧ l.digits.value ≤ maxSeedSides
      · have hread : ∀ span, l.digits.readSides span = .ok l.digits.value :=
          fun _ => Text.readSides_eq_ok_iff.2 ⟨rfl, hbounds⟩
        simp only [hread, Except.map]
        cases hfound : Seed.ofSymbol? l.symbol (some l.digits.value) with
        | none => simp
        | some found =>
          have hcount := (Lexeme.of_seedOfSymbol? hfound).2
          constructor
          · intro h
            cases h
            refine ⟨rfl, fun n hn => ?_⟩
            rw [← Option.some.inj (hcount.symm.trans hn)]
            exact hbounds
          · intro h
            rw [Option.some.inj h.1]
      · constructor
        · intro h
          cases hread : l.digits.readSides ⟨start + l.symbol.utf8Size, start + l.width⟩ with
          | error e => simp [hread, Except.map] at h
          | ok n =>
            obtain ⟨rfl, hread⟩ := Text.readSides_eq_ok_iff.1 hread
            exact absurd hread hbounds
        · intro h
          exact absurd (h.2 _ (Lexeme.of_seedOfSymbol? h.1).2) hbounds
  · constructor
    · intro h
      simp [readSeed, hletter] at h
    · intro h
      rw [Lexeme.symbol_of_seed? h.1] at hletter
      cases seed <;> exact absurd rfl hletter

variable {t : Text} {front : List Lexeme} {last : Lexeme}

private theorem lex_front (hproper : ∀ l ∈ front ++ [last], l.Proper) {digits : Text}
    (hdigits : digits.AllDigits) :
    Text.lex (digits ++ Lexeme.join front) = (digits, front) := by
  rw [Lexeme.lex_digits_append hdigits,
    Lexeme.lex_join fun l hl => hproper l (List.mem_append_left _ hl), List.append_nil]

/-- How a notation without leading digits is read. -/
theorem parse_of_lex (h : t.lex = ([], front ++ [last])) :
    parse t = (readSeed t (Lexeme.join front).byteLength last).bind fun seed =>
      (Token.ofLexemes (Lexeme.join front) 0 front).map fun operations =>
        ⟨t, seed, ⟨(Lexeme.join front).byteLength, t.byteLength⟩, operations⟩ := by
  have hne : t ≠ [] := by
    rintro rfl
    simp at h
  have hproper := t.proper_of_mem_lex
  rw [h] at hproper
  have hfront := lex_front hproper Text.allDigits_nil
  rw [List.nil_append] at hfront
  unfold parse Token.parse
  rw [if_neg hne, h]
  simp only [List.getLast?_concat, List.dropLast_concat, List.nil_append, hfront]
  cases readSeed t (Lexeme.join front).byteLength last with
  | error e => rfl
  | ok seed => rfl

/-- What is read from a text, part by part. -/
theorem parse_eq_ok_iff (hlex : t.lex = ([], front ++ [last])) {p : Program} :
    parse t = .ok p ↔
      p.text = t ∧ p.seedSpan = ⟨(Lexeme.join front).byteLength, t.byteLength⟩ ∧
        readSeed t (Lexeme.join front).byteLength last = .ok p.seed ∧
        Token.ofLexemes (Lexeme.join front) 0 front = .ok p.operations := by
  obtain ⟨text, seed, seedSpan, operations⟩ := p
  rw [parse_of_lex hlex]
  cases readSeed t (Lexeme.join front).byteLength last with
  | error e => simp [Except.bind]
  | ok found =>
    cases Token.ofLexemes (Lexeme.join front) 0 front with
    | error e => simp [Except.bind, Except.map]
    | ok tokens => simp [Except.bind, Except.map, eq_comm, and_left_comm]

/-- A text with leading digits is not read. -/
theorem lex_of_parse {p : Program} (h : parse t = .ok p) :
    ∃ front last, t.lex = ([], front ++ [last]) := by
  have hdigits := t.allDigits_lex
  have hproper := t.proper_of_mem_lex
  unfold parse at h
  split at h
  · simp at h
  · split at h
    next digits lexemes hlex =>
      rw [hlex] at hdigits hproper
      split at h
      · simp at h
      · next last hlast =>
        have hlexemes : lexemes.dropLast ++ [last] = lexemes :=
          List.dropLast_append_getLast? last hlast
        rw [← hlexemes] at hlex hproper
        cases digits with
        | nil => exact ⟨_, last, hlex⟩
        | cons d digits =>
          have hfront := lex_front hproper hdigits
          simp only [Token.parse, hfront] at h
          split at h <;> simp [Except.map] at h

/-- Every program is read from the lexemes of its notation. -/
theorem exists_reads {p : Program} (h : parse t = .ok p) :
    p.text = t ∧ (∃ front last, p.Reads front last) ∧
      ∀ n, p.seed.sides? = some n → minSeedSides ≤ n ∧ n ≤ maxSeedSides := by
  obtain ⟨front, last, hlex⟩ := lex_of_parse h
  have hproper := t.proper_of_mem_lex
  have hjoin := t.lex_join
  rw [hlex] at hproper hjoin
  obtain ⟨htext, hspan, hread, hoperations⟩ := (parse_eq_ok_iff hlex).1 h
  obtain ⟨hseed, hsides⟩ := readSeed_eq_ok_iff.1 hread
  have hreads : p.Reads front last :=
    ⟨hproper, htext.trans hjoin.symm, (Token.ofLexemes_eq_ok_iff.1 hoperations).1, hseed,
      by rw [hspan]⟩
  exact ⟨htext, ⟨front, last, hreads⟩, hsides⟩

/-! ## Names of solids -/

namespace Reads

variable {p : Program} {front : List Lexeme} {last : Lexeme} {ops : List Operation} {seed : Seed}

/-- The lexemes of a name are those of its operations and its seed. -/
private theorem eq_of_join_eq_spelling {ls : List Lexeme} (hproper : ∀ l ∈ ls ++ [last], l.Proper)
    (h : Lexeme.join (ls ++ [last]) = spelling ops seed) :
    ls.map Lexeme.operation? = ops.map some ∧ last.seed? = some seed := by
  rw [spelling_eq_join] at h
  have heq := Lexeme.join_inj hproper (fun l hl => ?_) h
  · obtain ⟨rfl, hlast⟩ := List.append_inj' heq rfl
    obtain rfl := List.singleton_inj.1 hlast
    refine ⟨?_, seed.seed?_lexeme⟩
    simp [Operation.operation?_lexeme]
  · rw [List.mem_append, List.mem_map, List.mem_singleton] at hl
    rcases hl with ⟨op, _, rfl⟩ | rfl
    · exact op.proper_lexeme
    · exact seed.proper_lexeme

/-- A program with the name of a solid as its notation describes that solid. -/
theorem of_text_eq (h : p.Reads front last) (htext : p.text = spelling ops seed) :
    p.operations.map Token.operation = ops ∧ p.seed = seed := by
  obtain ⟨hops, hseed⟩ := eq_of_join_eq_spelling h.proper (h.text.symm.trans htext)
  exact ⟨h.operations.map_operation_eq hops, Option.some.inj (h.seed.symm.trans hseed)⟩

/-- A name at the end of a notation spells the lexemes there, if it begins where one does. -/
theorem of_suffix (h : p.Reads front last) {ms ns : List Lexeme} (hfront : front = ms ++ ns)
    (hsuffix : spelling ops seed <:+ p.text)
    (hstart : p.text.byteLength - (spelling ops seed).byteLength = (Lexeme.join ms).byteLength) :
    ns.map Lexeme.operation? = ops.map some ∧ p.seed = seed := by
  subst hfront
  obtain ⟨before, htext⟩ := hsuffix
  have hcut : before ++ spelling ops seed = Lexeme.join ms ++ Lexeme.join (ns ++ [last]) := by
    rw [htext, h.text, ← Lexeme.join_append, List.append_assoc]
  rw [← htext, Text.byteLength_append, Nat.add_sub_cancel] at hstart
  obtain ⟨hops, hseed⟩ := eq_of_join_eq_spelling
    (fun l hl => h.proper l (by rw [List.append_assoc]; exact List.mem_append_right _ hl))
    (Text.eq_of_suffix hcut hstart).2.symm
  exact ⟨hops, Option.some.inj (h.seed.symm.trans hseed)⟩

/-- A name spells the operations of the tokens behind the boundary where it begins. -/
theorem of_suffix_tokens (h : p.Reads front last) {before behind : List Token}
    (htokens : p.operations = before ++ behind) (hsuffix : spelling ops seed <:+ p.text)
    (hstart : ∀ ms ns, front = ms ++ ns → Token.Along (Lexeme.join ms).byteLength ns behind →
      p.text.byteLength - (spelling ops seed).byteLength = (Lexeme.join ms).byteLength) :
    behind.map Token.operation = ops ∧ p.seed = seed := by
  have halong := h.operations
  rw [htokens] at halong
  obtain ⟨ms, ns, hfront, _, hns⟩ := halong.split
  rw [Nat.zero_add] at hns
  obtain ⟨hops, hseed⟩ := h.of_suffix hfront hsuffix (hstart ms ns hfront hns)
  exact ⟨hns.map_operation_eq hops, hseed⟩

end Reads

end Program

/-! ## Duals that stand apart -/

/-- No dual stands in front of another dual or of a Platonic solid. -/
def DualsApart : List Operation → Seed → Prop
  | [], _ => True
  | op :: ops, seed =>
    (op = .dual → ∀ c ∈ 'd' :: Alphabet.fixedSeeds, (spelling ops seed).head? ≠ some c) ∧
      DualsApart ops seed

theorem head?_spelling (ops : List Operation) (seed : Seed) :
    (spelling ops seed).head? = some ((ops.head?.map Operation.symbol).getD seed.symbol) := by
  cases ops with
  | nil => rfl
  | cons op ops =>
    rw [spelling_cons]
    cases op with
    | kis sides => cases sides <;> rfl
    | _ => rfl

namespace Program.Reads

variable {p : Program} {front : List Lexeme} {last : Lexeme}

/-- A program with a plain notation has its duals apart. -/
theorem dualsApart (h : p.Reads front last) (hplain : p.text.Plain) :
    DualsApart (p.operations.map Token.operation) p.seed := by
  have hseed := h.seed
  have halong := h.operations
  rw [h.text] at hplain
  clear h
  generalize p.operations = ts at halong
  generalize 0 = start at halong
  induction halong with
  | nil => trivial
  | @cons start l ls t ts operation span rest ih =>
    rw [List.cons_append, Lexeme.join_cons] at hplain
    have hrest : (Lexeme.join (ls ++ [last])).Plain :=
      Text.Plain.of_append (s := l.symbol :: l.digits) (by simpa using hplain)
    refine ⟨fun hdual c hc hhead => ?_, ih hrest⟩
    have hsymbol : l.symbol = 'd' := by
      rw [Lexeme.symbol_of_operation? operation, hdual]
      rfl
    have hdigits : l.digits = [] := by
      by_contra hne
      unfold Lexeme.operation? at operation
      simp [hsymbol, Operation.ofSymbol?, hne] at operation
    have table : ∀ c ∈ 'd' :: Alphabet.fixedSeeds, ('d', c) ∈ Excluded.byPass.pairs :=
      Alphabet.forall_mem_of_all (by decide)
    rw [hsymbol, hdigits] at hplain
    refine hplain.omits.head?_ne (table c hc) ?_
    -- the name and the notation go on with the same letter
    rw [head?_spelling] at hhead
    rw [← hhead]
    cases rest with
    | nil => simp [Lexeme.join, Lexeme.text, Lexeme.symbol_of_seed? hseed]
    | cons operation' => simp [Lexeme.join, Lexeme.text, Lexeme.symbol_of_operation? operation']

end Program.Reads

/-! ## Reading succeeds -/

/-- A fixed seed is read off its letter. -/
theorem Program.exists_readSeed_fixed {c : Char} (hc : Alphabet.isFixedSeed c = true)
    (whole : Text) (start : Nat) : ∃ seed, readSeed whole start ⟨c, []⟩ = .ok seed := by
  have table : ∀ c ∈ Alphabet.fixedSeeds, (Seed.ofSymbol? c none).isSome = true :=
    Alphabet.forall_mem_of_all (by decide)
  obtain ⟨seed, hseed⟩ := Option.isSome_iff_exists.1
    (table c (by simpa [Alphabet.isFixedSeed] using hc))
  exact ⟨seed, by simp [readSeed, Alphabet.isSeed, hc, hseed]⟩

/-- A member of a family is read off its letter and its side count. -/
theorem Program.exists_readSeed_family {c : Char} {digits : Text}
    (hc : Alphabet.isFamilySeed c = true) (hsides : IsSides digits) (whole : Text) (start : Nat) :
    ∃ seed, readSeed whole start ⟨c, digits⟩ = .ok seed := by
  have hseed : ∃ seed, Seed.ofSymbol? c (some digits.value) = some seed := by
    rcases Alphabet.eq_of_isFamilySeed hc with rfl | rfl | rfl <;> exact ⟨_, rfl⟩
  obtain ⟨seed, hseed⟩ := hseed
  have hread : digits.readSides ⟨start + c.utf8Size, start + (⟨c, digits⟩ : Lexeme).width⟩ =
      .ok digits.value :=
    Text.readSides_eq_ok_iff.2 ⟨rfl, hsides.le_value, hsides.value_le⟩
  exact ⟨seed, by simp [readSeed, Alphabet.isSeed, hc, hsides.ne_nil, hread, Except.map, hseed]⟩

namespace Lexeme

/-- A primitive letter without a number stands for an operation. -/
theorem isSome_operation?_plain {c : Char} (hc : Alphabet.isPlainOperator c = true)
    (primitive : c ∉ Alphabet.aliases) : (⟨c, []⟩ : Lexeme).operation?.isSome = true := by
  have table : ∀ c ∈ Alphabet.plainOperators, c ∉ Alphabet.aliases →
      (⟨c, []⟩ : Lexeme).operation?.isSome = true := Alphabet.forall_mem_of_all (by decide)
  exact table c (by simpa [Alphabet.isPlainOperator] using hc) primitive

/-- Of the letters that take a number only kis is primitive. -/
theorem isSome_operation?_selecting {c : Char} (hc : Alphabet.isSelectingOperator c = true)
    (primitive : c ∉ Alphabet.aliases) (digits : Text) :
    (⟨c, digits⟩ : Lexeme).operation?.isSome = true := by
  obtain rfl : c = 'k' := (Alphabet.eq_of_isSelectingOperator hc).resolve_right fun ht =>
    primitive (by rw [ht]; decide)
  by_cases hd : digits = [] <;> simp [operation?, Operation.ofSymbol?, hd]

theorem lex_letter_digits {c : Char} {digits : Text} (hc : c.isDigit = false)
    (hdigits : digits.AllDigits) (t : Text) :
    Text.lex (c :: (digits ++ t)) = ([], ⟨c, digits ++ t.lex.1⟩ :: t.lex.2) := by
  rw [Text.lex_cons_of_not_isDigit hc, lex_digits_append hdigits]

end Lexeme

/-- The lexemes of a notation without aliases stand for operations and a seed. -/
theorem IsNotation.exists_lex {t : Text} (h : IsNotation t)
    (primitive : ∀ c ∈ t, c ∉ Alphabet.aliases) :
    ∃ front last, t.lex = ([], front ++ [last]) ∧
      (∀ l ∈ front, l.operation?.isSome = true ∧ l.digits.value ≤ maxNumber) ∧
      ∀ whole start, ∃ seed, Program.readSeed whole start last = .ok seed := by
  induction h with
  | seed isSeed =>
    cases isSeed with
    | @fixed c letter =>
      refine ⟨[], ⟨c, []⟩, ?_, by simp, Program.exists_readSeed_fixed letter⟩
      rw [Text.lex_cons_of_not_isDigit (Alphabet.of_isFixedSeed letter).2.2.2]
      rfl
    | @family c digits letter all_digits ne_nil le_value value_le =>
      refine ⟨[], ⟨c, digits⟩, ?_, by simp, Program.exists_readSeed_family letter
        ⟨all_digits, ne_nil, le_value, value_le⟩⟩
      rw [← List.append_nil digits,
        Lexeme.lex_letter_digits (Alphabet.of_isFamilySeed letter).2.2.2 all_digits]
      simp
  | @operator o s isOperator rest ih =>
    obtain ⟨front, last, hlex, hfront, hlast⟩ :=
      ih fun c hc => primitive c (List.mem_append_right _ hc)
    cases isOperator with
    | @plain c letter =>
      have hop := Lexeme.isSome_operation?_plain letter (primitive c (by simp))
      refine ⟨⟨c, []⟩ :: front, last, ?_,
        List.forall_mem_cons.2 ⟨⟨hop, Nat.zero_le _⟩, hfront⟩, hlast⟩
      rw [List.cons_append, Text.lex_cons_of_not_isDigit
        (Alphabet.of_isPlainOperator letter).2.2.2]
      simp [hlex]
    | @selecting c digits letter all_digits value_le =>
      have hop := Lexeme.isSome_operation?_selecting letter (primitive c (by simp)) digits
      refine ⟨⟨c, digits⟩ :: front, last, ?_,
        List.forall_mem_cons.2 ⟨⟨hop, value_le⟩, hfront⟩, hlast⟩
      rw [List.cons_append,
        Lexeme.lex_letter_digits (Alphabet.of_isSelectingOperator letter).2.2.2 all_digits]
      simp [hlex]

/-- A notation without aliases is read as a program. -/
theorem parse_of_isNotation {t : Text} (h : IsNotation t)
    (primitive : ∀ c ∈ t, c ∉ Alphabet.aliases) : ∃ p, Program.parse t = .ok p := by
  obtain ⟨front, last, hlex, hfront, hlast⟩ := h.exists_lex primitive
  obtain ⟨seed, hseed⟩ := hlast t (Lexeme.join front).byteLength
  obtain ⟨ts, hts⟩ := Token.exists_ofLexemes (Lexeme.join front) 0 hfront
  exact ⟨_, by rw [Program.parse_of_lex hlex, hseed, hts]; rfl⟩

/-- A valid notation compiles. -/
theorem compile_of_validate {input : Text} (h : input.validate = .ok ()) :
    ∃ p, input.compile = .ok ⟨input.reduce, p⟩ ∧ Program.parse input.reduce.output = .ok p := by
  have hnotation := validate_eq_ok_iff_isNotation.1 h
  obtain ⟨p, hp⟩ := parse_of_isNotation hnotation.of_reduce.1 fun c hc halias =>
    (input.plain_reduce.notMem halias) hc
  exact ⟨p, by simp [Text.compile, h, hp, Except.map], hp⟩

end Polyhedra
