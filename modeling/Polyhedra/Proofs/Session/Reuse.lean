import Polyhedra.Proofs.Notation.RoundTrip
import Polyhedra.Proofs.Session.Duality
import Polyhedra.Proofs.Session.Naming
import Polyhedra.Proofs.Session.Tally

/-!
# What is built anew

A session saves work in two ways: by answering at once, or by building on top of
what is at hand.  It never misses an occasion.  A name begins with a letter, and
every letter of a notation begins a token or the seed, so that a name at the end
of a notation is never cut by a token (`Lexeme.exists_of_append_eq_join`).  Hence
the tokens in front of it are always found (`Program.Reads.pendingOn?_eq`), and of
two names the longer one leaves the fewer tokens.

## Main results

* `Program.Reads.pendingOn?_eq` — a name can be built upon just when the notation
  ends in it.
* `Session.Reachable.tally_generate` — the work that a request causes.
-/

namespace Polyhedra

/-! ## Where a name begins -/

/-- The text begins with something that is no digit. -/
def Text.StartsWithLetter (t : Text) : Prop := ∃ c rest, t = c :: rest ∧ c.isDigit = false

theorem Text.StartsWithLetter.ne_nil {t : Text} (h : t.StartsWithLetter) : t ≠ [] := by
  obtain ⟨c, rest, rfl, -⟩ := h
  exact List.cons_ne_nil c rest

/-- The name of what operations make of a seed begins with the letter of either. -/
theorem startsWithLetter_spelling (ops : List Operation) (seed : Seed) :
    (spelling ops seed).StartsWithLetter := by
  obtain ⟨rest, hrest⟩ := List.head?_eq_some_iff.1 (head?_spelling ops seed)
  refine ⟨_, rest, hrest, ?_⟩
  cases ops with
  | nil => cases seed <;> rfl
  | cons op ops => cases op <;> rfl

/-- What begins with a letter, at the end of a run of lexemes, begins where a lexeme does. -/
theorem Lexeme.exists_of_append_eq_join {ls : List Lexeme} (hls : ∀ l ∈ ls, l.Proper) {c : Char}
    (hc : c.isDigit = false) {before rest : Text} (h : before ++ c :: rest = join ls) :
    ∃ ms ns, ls = ms ++ ns ∧ before = join ms ∧ c :: rest = join ns := by
  induction ls generalizing before with
  | nil => exact absurd h (by simp [join])
  | cons l ls ih =>
    rw [List.forall_mem_cons] at hls
    cases before with
    | nil => exact ⟨[], l :: ls, rfl, rfl, h⟩
    | cons b before =>
      rw [join_cons, List.cons_append, List.cons.injEq] at h
      obtain ⟨hb, h⟩ := h
      obtain ⟨rest', hbefore, hrest'⟩ := Text.exists_of_digits_append hls.1.digits hc h.symm
      obtain ⟨ms, ns, hcut, hms, hns⟩ := ih hls.2 hrest'.symm
      refine ⟨l :: ms, ns, by rw [hcut, List.cons_append], ?_, hns⟩
      rw [join_cons, hb, hbefore, hms]

namespace Token.Along

variable {start : Nat} {ms ns : List Lexeme} {ts : List Token}

/-- Lexemes are cut where the second half of their tokens starts. -/
theorem split_lexemes (h : Along start (ms ++ ns) ts) :
    ∃ us vs, ts = us ++ vs ∧ Along start ms us ∧
      Along (start + (Lexeme.join ms).byteLength) ns vs := by
  induction ms generalizing start ts with
  | nil => exact ⟨[], ts, rfl, .nil, h⟩
  | cons l ms ih =>
    cases h with
    | @cons _ _ _ t ts operation span rest =>
      obtain ⟨us, vs, hts, hus, hvs⟩ := ih rest
      refine ⟨t :: us, vs, by rw [hts, List.cons_append], .cons operation span hus, ?_⟩
      rw [Lexeme.byteLength_join_cons, ← Nat.add_assoc]
      exact hvs

/-- Tokens cover something, within the lexemes they are read from. -/
theorem span_le (h : Along start ms ts) {t : Token} (ht : t ∈ ts) :
    start ≤ t.span.start ∧ t.span.start < t.span.stop ∧
      t.span.stop ≤ start + (Lexeme.join ms).byteLength :=
  h.tile.bounds (List.mem_map_of_mem ht)

end Token.Along

/-! ## The tokens in front of a name -/

namespace Program

/-- The tokens that end where the name begins, or before, if it stands at the end. -/
def tokensBefore (p : Program) (name : Text) : List Token :=
  p.operations.filter fun t => t.span.stop ≤ p.text.byteLength - name.byteLength

variable {p : Program} {front : List Lexeme} {last : Lexeme}

/-- A name at the end of a notation divides the tokens into those before and those within. -/
theorem Reads.exists_cut (h : p.Reads front last) {name : Text} (hletter : name.StartsWithLetter)
    (hsuffix : name <:+ p.text) :
    ∃ ns us vs, p.operations = us ++ vs ∧
      (∀ t ∈ us, t.span.start < t.span.stop ∧
        t.span.stop ≤ p.text.byteLength - name.byteLength) ∧
      Token.Along (p.text.byteLength - name.byteLength) ns vs ∧
      p.seedSpan.start =
        p.text.byteLength - name.byteLength + (Lexeme.join ns).byteLength := by
  obtain ⟨c, rest, hname, hc⟩ := hletter
  obtain ⟨before, hbefore⟩ := hsuffix
  have hboundary : p.text.byteLength - name.byteLength = Text.byteLength before := by
    rw [← hbefore, Text.byteLength_append]
    omega
  obtain ⟨ms, ns, hcut, hms, hns⟩ :=
    Lexeme.exists_of_append_eq_join h.proper hc (hname ▸ hbefore.trans h.text)
  rcases List.eq_nil_or_concat ns with hnil | ⟨ns', last', hconcat⟩
  · exact absurd hns (by simp [hnil, Lexeme.join])
  · rw [hconcat, List.concat_eq_append, ← List.append_assoc] at hcut
    obtain ⟨hfront, -⟩ := List.append_inj' hcut rfl
    have halong := h.operations
    rw [hfront] at halong
    obtain ⟨us, vs, htokens, hus, hvs⟩ := halong.split_lexemes
    rw [Nat.zero_add, ← hms] at hvs
    rw [hboundary]
    refine ⟨ns', us, vs, htokens, fun t ht => ?_, hvs, ?_⟩
    · have hbounds := hus.span_le ht
      rw [Nat.zero_add, ← hms] at hbounds
      exact hbounds.2
    · rw [h.seedStart, hfront, Lexeme.join_append, Text.byteLength_append, ← hms]

/-- No token reaches over the beginning of a name at the end of the notation. -/
theorem Reads.before_or_within (h : p.Reads front last) {name : Text}
    (hletter : name.StartsWithLetter) (hsuffix : name <:+ p.text) {t : Token}
    (ht : t ∈ p.operations) :
    t.span.stop ≤ p.text.byteLength - name.byteLength ∨
      p.text.byteLength - name.byteLength ≤ t.span.start := by
  obtain ⟨ns, us, vs, htokens, hus, hvs, -⟩ := h.exists_cut hletter hsuffix
  rw [htokens] at ht
  rcases List.mem_append.1 ht with hmem | hmem
  · exact .inl (hus t hmem).2
  · exact .inr (hvs.span_le hmem).1

/-- A name at the end of the notation can be built upon. -/
theorem Reads.pendingOn?_eq (h : p.Reads front last) {name : Text}
    (hletter : name.StartsWithLetter) (hsuffix : name <:+ p.text) :
    p.pendingOn? name = some (p.tokensBefore name) := by
  obtain ⟨ns, us, vs, htokens, hus, hvs, hseed⟩ := h.exists_cut hletter hsuffix
  have hguard : name ≠ [] ∧ name.isSuffixOf p.text = true :=
    ⟨hletter.ne_nil, List.isSuffixOf_iff_suffix.2 hsuffix⟩
  unfold pendingOn? tokensBefore
  rw [if_pos hguard]
  generalize p.text.byteLength - name.byteLength = boundary at hus hvs hseed ⊢
  have hbefore : p.operations.filter (fun t => t.span.stop ≤ boundary) = us := by
    have hin : us.filter (fun t => t.span.stop ≤ boundary) = us :=
      List.filter_eq_self.2 fun t ht => by simpa using (hus t ht).2
    have hout : vs.filter (fun t => t.span.stop ≤ boundary) = [] := by
      refine List.filter_eq_nil_iff.2 fun t ht => ?_
      have hbounds := hvs.span_le ht
      simp only [decide_eq_true_eq]
      omega
    rw [htokens, List.filter_append, hin, hout, List.append_nil]
  rw [hbefore]
  show (if boundary = p.seedSpan.start then some p.operations else _) = some us
  cases hvs with
  | nil =>
    -- nothing but the seed is left for the name
    rw [if_pos (by simpa [Lexeme.join, Text.byteLength] using hseed.symm), htokens, List.append_nil]
  | @cons _ l ls v vs operation span within =>
    have hstart : v.span.start = boundary := by rw [span]
    have hlater : boundary ≠ p.seedSpan.start := by
      have hwidth := l.width_pos
      rw [hseed, Lexeme.byteLength_join_cons]
      omega
    have hfound : p.operations.any (fun t => t.span.start == boundary) = true :=
      List.any_eq_true.2 ⟨v, by simp [htokens], beq_iff_eq.2 hstart⟩
    have hfirst : ∀ t ∈ us, (t.span.start != boundary) = true := by
      intro t ht
      have hbounds := hus t ht
      have hne : t.span.start ≠ boundary := by omega
      exact bne_iff_ne.2 hne
    have hstop : (v :: vs).takeWhile (fun t => t.span.start != boundary) = [] := by
      rw [List.takeWhile_cons, hstart, bne_self_eq_false]
      rfl
    rw [if_neg hlater, if_pos hfound, htokens, List.takeWhile_append_of_pos hfirst, hstop,
      List.append_nil]

theorem pendingOn?_eq_none {name : Text} (h : ¬ name <:+ p.text) : p.pendingOn? name = none := by
  unfold pendingOn?
  rw [if_neg]
  intro hguard
  exact h (List.isSuffixOf_iff_suffix.1 hguard.2)

/-- In front of a longer name there stand fewer tokens. -/
theorem tokensBefore_sublist {name other : Text} (hname : name <:+ p.text)
    (hother : other <:+ p.text) (hle : other.length ≤ name.length) :
    (p.tokensBefore name).Sublist (p.tokensBefore other) := by
  obtain ⟨more, hmore⟩ := List.suffix_of_suffix_length_le hother hname hle
  have hbytes := Text.byteLength_append more other
  rw [hmore] at hbytes
  refine List.monotone_filter_right _ fun t ht => ?_
  rw [decide_eq_true_eq] at ht ⊢
  omega

end Program

/-! ## The name to build upon -/

/-- One of the names of the two sides of the pair. -/
def DualPair.HasName (pair : DualPair) (name : Text) : Prop :=
  name = pair.solid.name ∨ name = pair.dual.name

/-- The longest of the names with a property that end a text. -/
structure Text.LongestSuffix (t : Text) (IsName : Text → Prop) (name : Text) : Prop where
  isName : IsName name
  suffix : name <:+ t
  longest : ∀ other, IsName other → other <:+ t → other.length ≤ name.length

/-- Of the two names of a pair there is a longest one at the end of a text, if there is any. -/
theorem DualPair.exists_longestSuffix {pair : DualPair} {t name : Text} (hname : pair.HasName name)
    (hsuffix : name <:+ t) : ∃ name, t.LongestSuffix pair.HasName name := by
  by_cases hboth : pair.solid.name <:+ t ∧ pair.dual.name <:+ t
  · rcases Nat.le_total pair.dual.name.length pair.solid.name.length with hle | hle
    · refine ⟨_, .inl rfl, hboth.1, fun other hother _ => ?_⟩
      rcases hother with rfl | rfl
      · exact Nat.le_refl _
      · exact hle
    · refine ⟨_, .inr rfl, hboth.2, fun other hother _ => ?_⟩
      rcases hother with rfl | rfl
      · exact hle
      · exact Nat.le_refl _
  · refine ⟨name, hname, hsuffix, fun other hother hend => ?_⟩
    have hsame : other = name := by
      rcases hname with hname | hname <;> rcases hother with hother | hother <;> subst hname hother
      · rfl
      · exact absurd ⟨hsuffix, hend⟩ hboth
      · exact absurd ⟨hend, hsuffix⟩ hboth
      · rfl
    exact Nat.le_of_eq (congrArg List.length hsame)

namespace Program

variable {p : Program} {front : List Lexeme} {last : Lexeme} {cache : DualPair}

theorem resumePoint?_eq_none (h : ∀ name, cache.HasName name → ¬ name <:+ p.text) :
    p.resumePoint? cache = none := by
  unfold resumePoint?
  rw [pendingOn?_eq_none (h _ (.inl rfl)), pendingOn?_eq_none (h _ (.inr rfl))]

/-- The side with the longest name is built upon; the tokens in front of the name are pending. -/
theorem Reads.exists_resumePoint (h : p.Reads front last)
    (hletter : ∀ name, cache.HasName name → name.StartsWithLetter) {name : Text}
    (hname : p.text.LongestSuffix cache.HasName name) :
    ∃ pair, p.resumePoint? cache = some (pair, p.tokensBefore name) := by
  have hpending : ∀ other, cache.HasName other → other <:+ p.text →
      p.pendingOn? other = some (p.tokensBefore other) :=
    fun other hother hend => h.pendingOn?_eq (hletter other hother) hend
  -- a name that leaves no more tokens than the longest one leaves the same
  have heq : ∀ other, cache.HasName other → other <:+ p.text →
      (p.tokensBefore other).length ≤ (p.tokensBefore name).length →
      p.tokensBefore other = p.tokensBefore name := by
    intro other hother hend hle
    have hsublist := tokensBefore_sublist hname.suffix hend (hname.longest other hother hend)
    exact (hsublist.eq_of_length_le hle).symm
  have hsolid : cache.HasName cache.solid.name := .inl rfl
  have hdual : cache.HasName cache.dual.name := .inr rfl
  unfold resumePoint?
  by_cases hs : cache.solid.name <:+ p.text
  · rw [hpending _ hsolid hs]
    by_cases hd : cache.dual.name <:+ p.text
    · rw [hpending _ hdual hd]
      simp only
      split
      · next hlt =>
        refine ⟨cache.swap, ?_⟩
        rcases hname.isName with hside | hside
        · rw [heq _ hdual hd (by rw [hside]; exact Nat.le_of_lt hlt)]
        · rw [hside]
      · next hle =>
        refine ⟨cache, ?_⟩
        rcases hname.isName with hside | hside
        · rw [hside]
        · rw [heq _ hsolid hs (by rw [hside]; exact Nat.le_of_not_lt hle)]
    · rw [pendingOn?_eq_none hd]
      refine ⟨cache, ?_⟩
      rcases hname.isName with hside | hside
      · rw [hside]
      · exact absurd (hside ▸ hname.suffix) hd
  · rw [pendingOn?_eq_none hs]
    rcases hname.isName with hside | hside
    · exact absurd (hside ▸ hname.suffix) hs
    · rw [hpending _ hdual (hside ▸ hname.suffix), hside]
      exact ⟨cache.swap, rfl⟩

variable {settings : Settings}

theorem tally_build_of_solid (h : cache.solid.name = p.text) :
    (p.build settings (some cache)).tally = { cacheHits := 1 } := by
  simp only [build]
  rw [if_pos h, Run.tally_note_bind]
  rfl

theorem tally_build_of_dual (hsolid : cache.solid.name ≠ p.text) (h : cache.dual.name = p.text) :
    (p.build settings (some cache)).tally = { cacheHits := 1, dualSwaps := 1 } := by
  have hexchange : (Solid.ofPair cache).exchange.outcome = .ok ⟨cache.dual, some cache.solid⟩ :=
    Solid.outcome_exchange rfl
  simp only [build]
  rw [if_neg hsolid, if_pos h, Run.tally_bind_of_ok hexchange, Solid.tally_exchange hexchange,
    Run.tally_note_bind]
  rfl

/-- What is not at hand is built on the side with the longest name that ends the notation. -/
theorem Reads.exists_build_eq_buildOn (h : p.Reads front last) (settings : Settings)
    (hletter : ∀ name, cache.HasName name → name.StartsWithLetter)
    (hother : ¬ cache.HasName p.text) {name : Text}
    (hname : p.text.LongestSuffix cache.HasName name) :
    ∃ pair, (pair = cache ∨ pair = cache.swap) ∧
      p.pendingOn? pair.solid.name = some (p.tokensBefore name) ∧
      p.build settings (some cache) = buildOn settings pair (p.tokensBefore name) := by
  obtain ⟨pair, hpair⟩ := h.exists_resumePoint hletter hname
  obtain ⟨hside, hpending⟩ := resumePoint?_eq_some hpair
  refine ⟨pair, hside, hpending, ?_⟩
  simp only [build]
  rw [if_neg fun hs => hother (.inl hs.symm), if_neg fun hd => hother (.inr hd.symm), hpair]

/-- What is not at hand, nor ends in what is, is built from its seed. -/
theorem build_eq_buildFresh {cache : Option DualPair}
    (h : ∀ pair ∈ cache, ∀ name, pair.HasName name → ¬ name <:+ p.text) :
    p.build settings cache = p.buildFresh settings := by
  cases cache with
  | none => rfl
  | some pair =>
    have hnone := h pair rfl
    simp only [build]
    rw [if_neg fun hs => hnone _ (.inl hs.symm) List.suffix_rfl,
      if_neg fun hd => hnone _ (.inr hd.symm) List.suffix_rfl, resumePoint?_eq_none hnone]

/-! ## How far tokens are applied -/

/--
Of the tokens of a program in front of some operations, those that are applied: all
of them if there is an answer, else those behind the first that would outgrow the
limits, which is then the fault.
-/
inductive Applies (settings : Settings) (p : Program) {α : Type} (outcome : Except MeshError α)
    (tokens : List Token) : List Token → Prop where
  | all {a : α} (answered : outcome = .ok a) : Applies settings p outcome tokens tokens
  | upTo {e : MeshError} {t : Token} {applied : List Token} {behind : List Operation}
    {solid : Solid} (refused : outcome = .error e) (suffix : t :: applied <:+ tokens)
    (whole : p.operations.map Token.operation = tokens.map Token.operation ++ behind)
    (before : describe settings (applied.map Token.operation ++ behind) p.seed = .ok solid)
    (size : t.operation.sizeFault? solid.mesh = some e) :
    Applies settings p outcome tokens applied

theorem Applies.map {α β : Type} {outcome : Except MeshError α} {tokens applied : List Token}
    (h : p.Applies settings outcome tokens applied) (f : α → β) :
    p.Applies settings (outcome.map f) tokens applied := by
  cases h with
  | all answered => exact .all (congrArg (Except.map f) answered)
  | upTo refused suffix whole before size =>
    exact .upTo (congrArg (Except.map f) refused) suffix whole before size

/-- If a program is refused at all, then at a token that would outgrow the limits. -/
theorem exists_applies
    (hsides : ∀ n, p.seed.sides? = some n → minSeedSides ≤ n ∧ n ≤ maxSeedSides)
    (happart : DualsApart (p.operations.map Token.operation) p.seed) {tokens : List Token}
    {behind : List Operation} {solid : Solid}
    (hwhole : p.operations.map Token.operation = tokens.map Token.operation ++ behind)
    (hsolid : describe settings behind p.seed = .ok solid) :
    ∃ applied, (solid.applyTokens settings tokens).tally = Tally.ofTokens applied ∧
      p.Applies settings (solid.applyTokens settings tokens).outcome tokens applied := by
  obtain ⟨applied, htally, ⟨⟨s, hs⟩, rfl⟩ | ⟨t, s, e, he, hsuffix, hs, hstep⟩⟩ :=
    solid.exists_applied settings tokens
  · exact ⟨_, htally, .all hs⟩
  · obtain ⟨before, rfl⟩ := hsuffix
    have hdescribed : describe settings (applied.map Token.operation ++ behind) p.seed = .ok s := by
      rw [describe_append, hsolid, ← hs, Solid.outcome_applyTokens]
      rfl
    rw [hwhole, List.map_append, List.append_assoc] at happart
    refine ⟨applied, htally, .upTo he ⟨before, rfl⟩ hwhole hdescribed ?_⟩
    exact (step_of_describe hsides happart.of_append hdescribed).1 e hstep

end Program

/-! ## Sessions -/

theorem DualPair.Recalled.startsWithLetter {settings : Settings} {pair : DualPair}
    (h : pair.Recalled settings) : pair.solid.name.StartsWithLetter := by
  obtain ⟨ops, seed, hname, -⟩ := h
  rw [hname]
  exact startsWithLetter_spelling ops seed

/-- The sides of a pair have different names. -/
theorem DualPair.Named.name_ne {pair : DualPair} (h : pair.Named) :
    pair.solid.name ≠ pair.dual.name := by
  intro hsame
  have hlength := congrArg List.length (h.dual.symm.trans hsame.symm)
  unfold dualName at hlength
  split at hlength
  · next rest hrest =>
    rw [hrest] at hlength
    simp at hlength
  · simp at hlength

namespace Session

variable {settings : Settings} {s : Session} {input : Text} {c : Compiled}

/-- One of the names of what is at hand, from either side. -/
def NameAtHand (s : Session) (name : Text) : Prop := ∃ pair ∈ s.cache, pair.HasName name

/-- A request adds the counts of the build that it causes. -/
theorem tally_generate_eq (hc : input.compile = .ok c) :
    (s.generate input).1.tally = s.tally + (c.program.build s.settings s.cache).tally := by
  unfold Session.generate
  rw [hc]
  exact Tally.recordAll_eq_add _ _

/-- A request is answered with the build that it causes. -/
theorem outcome_generate_eq_map (hc : input.compile = .ok c) :
    (s.generate input).2.outcome =
      (c.program.build s.settings s.cache).outcome.map fun solid => ⟨solid.mesh, c.trace⟩ := by
  unfold Session.generate
  rw [hc]
  simp only [Session.build, Run.outcome_bind, Run.outcome_map]
  cases (c.program.build s.settings s.cache).outcome <;> rfl

theorem Reachable.startsWithLetter (h : Reachable settings s) {name : Text}
    (hname : s.NameAtHand name) : name.StartsWithLetter := by
  obtain ⟨pair, hpair, hside⟩ := hname
  obtain ⟨hsolid, hdual⟩ := h.recalled pair hpair
  rcases hside with hside | hside
  · exact hside ▸ hsolid.startsWithLetter
  · exact hside ▸ hdual.startsWithLetter

/-- A notation at hand is answered. -/
theorem Reachable.exists_answer_of_atHand (h : Reachable settings s) (hc : input.compile = .ok c)
    (hname : s.NameAtHand c.text) : ∃ g, (s.generate input).2.outcome = .ok g := by
  obtain ⟨⟨front, last, hreads⟩, -⟩ := Text.reads_of_compile hc
  obtain ⟨-, -, htext⟩ := Text.text_of_compile hc
  obtain ⟨pair, hpair, hside⟩ := hname
  obtain ⟨hsolid, hdual⟩ := h.recalled pair hpair
  have answered : ∀ {side : DualPair}, side.Recalled settings → side.solid.name = c.program.text →
      ∃ g, (s.generate input).2.outcome = .ok g := by
    intro side hside hname
    have hbuild := Program.outcome_buildFresh_of_name hreads hside hname
    rw [Program.outcome_buildFresh] at hbuild
    rw [h.outcome_generate_eq hc, hbuild]
    exact ⟨_, rfl⟩
  rcases hside with hside | hside
  · exact answered hsolid (hside.symm.trans htext.symm)
  · exact answered hdual (hside.symm.trans htext.symm)

/-- After an answer to what has an operation, that is at hand with its dual, named after it. -/
theorem Reachable.exists_namedPair (h : Reachable settings s) (hc : input.compile = .ok c)
    (hoperations : c.program.operations ≠ []) {g : Generated}
    (hg : (s.generate input).2.outcome = .ok g) :
    ∃ pair, (s.generate input).1.cache = some pair ∧ pair.solid.name = c.text.terse ∧
      pair.dual.name = dualName c.text.terse := by
  obtain ⟨⟨front, last, hreads⟩, happart⟩ := Text.reads_of_compile hc
  obtain ⟨-, -, htext⟩ := Text.text_of_compile hc
  obtain ⟨pair, hpair, hdescribe⟩ := h.exists_pair hc hoperations hg
  have hnamed := hreads.named happart hdescribe
  rw [htext] at hnamed
  exact ⟨pair, hpair, hnamed.mesh, hnamed.dual _ rfl⟩

/-- After such an answer there are two names at hand: that of the answer and that of its dual. -/
theorem Reachable.nameAtHand_iff (h : Reachable settings s) (hc : input.compile = .ok c)
    (hoperations : c.program.operations ≠ []) {g : Generated}
    (hg : (s.generate input).2.outcome = .ok g) {name : Text} :
    (s.generate input).1.NameAtHand name ↔ name = c.text.terse ∨ name = dualName c.text.terse := by
  obtain ⟨pair, hpair, hsolid, hdual⟩ := h.exists_namedPair hc hoperations hg
  simp [NameAtHand, DualPair.HasName, hpair, hsolid, hdual]

/-- What a request for a notation at hand counts: a hit, and an exchange if it is the dual's. -/
theorem Reachable.tally_build_of_atHand (h : Reachable settings s) {p : Program}
    (hname : s.NameAtHand p.text) :
    (p.build s.settings s.cache).tally = { cacheHits := 1 } ∧
        (¬ ∃ pair ∈ s.cache, p.text = pair.dual.name) ∨
      (p.build s.settings s.cache).tally = { cacheHits := 1, dualSwaps := 1 } ∧
        ∃ pair ∈ s.cache, p.text = pair.dual.name := by
  obtain ⟨pair, hpair, hside⟩ := hname
  have hcache : s.cache = some pair := hpair
  have hne := (h.sound_cache hcache).2.name_ne
  rw [hcache]
  rcases hside with hsolid | hdual
  · refine .inl ⟨Program.tally_build_of_solid hsolid.symm, fun hdual => ?_⟩
    obtain ⟨pair', hpair', hdual⟩ := hdual
    obtain rfl := Option.some.inj hpair'
    exact hne (hsolid.symm.trans hdual)
  · have hsolid : pair.solid.name ≠ p.text := fun hsolid => hne (hsolid.trans hdual)
    exact .inr ⟨Program.tally_build_of_dual hsolid hdual.symm, pair, rfl, hdual⟩

/-- What a request for a notation counts that is not at hand but ends in what is. -/
theorem Reachable.tally_build_of_suffix (h : Reachable settings s) (hc : input.compile = .ok c)
    (hother : ¬ s.NameAtHand c.text) {name : Text}
    (hname : c.text.LongestSuffix s.NameAtHand name) :
    ∃ applied, (c.program.build s.settings s.cache).tally =
        { resumed := 1 } + Tally.ofTokens applied ∧
      c.program.Applies settings (s.generate input).2.outcome (c.program.tokensBefore name)
        applied := by
  obtain rfl := h.settings_eq
  obtain ⟨⟨front, last, hreads⟩, happart⟩ := Text.reads_of_compile hc
  obtain ⟨-, -, htext⟩ := Text.text_of_compile hc
  obtain ⟨-, -, hsides⟩ := Program.exists_reads (Text.parse_of_compile hc)
  obtain ⟨cache, hcache, hside⟩ := hname.isName
  have hcache' : s.cache = some cache := hcache
  have hatHand : ∀ {other}, cache.HasName other → s.NameAtHand other :=
    fun hside => ⟨cache, hcache, hside⟩
  rw [← htext] at hother hname
  obtain ⟨pair, hpair, hpending, hbuild⟩ :=
    hreads.exists_build_eq_buildOn s.settings
      (fun _ hside => h.startsWithLetter (hatHand hside)) (fun hside => hother (hatHand hside))
      ⟨hside, hname.suffix, fun other hside hend => hname.longest other (hatHand hside) hend⟩
  -- the side that is built on is what its name describes
  have hrecalled : pair.Recalled s.settings := by
    obtain ⟨hsolid, hdual⟩ := h.recalled cache hcache
    rcases hpair with rfl | rfl
    · exact hsolid
    · exact hdual
  obtain ⟨ops, seed, hspelling, hdescribe⟩ := hrecalled
  rw [hspelling] at hpending
  obtain ⟨hwhole, rfl⟩ := hreads.pendingOn?_spelling hpending
  obtain ⟨applied, htally, happlies⟩ := Program.exists_applies hsides happart hwhole hdescribe
  refine ⟨applied, ?_, ?_⟩
  · rw [hcache', hbuild, Program.tally_buildOn, htally]
  · rw [outcome_generate_eq_map hc, hcache', hbuild]
    unfold Program.buildOn
    rw [Run.outcome_note_bind]
    exact happlies.map _

/-- What a request for a notation counts that does not end in anything at hand. -/
theorem Reachable.tally_build_of_no_suffix (h : Reachable settings s)
    (hc : input.compile = .ok c) (hnone : ∀ name, s.NameAtHand name → ¬ name <:+ c.text) :
    ∃ applied, (c.program.build s.settings s.cache).tally =
        { seedsBuilt := 1 } + Tally.ofTokens applied ∧
      c.program.Applies settings (s.generate input).2.outcome c.program.operations applied := by
  obtain rfl := h.settings_eq
  obtain ⟨-, happart⟩ := Text.reads_of_compile hc
  obtain ⟨-, -, htext⟩ := Text.text_of_compile hc
  obtain ⟨-, -, hsides⟩ := Program.exists_reads (Text.parse_of_compile hc)
  obtain ⟨seed, hseed, -⟩ := Seed.exists_sound s.settings hsides
  have hdescribe : describe s.settings [] c.program.seed = .ok seed := by
    rw [describe, hseed]
    rfl
  obtain ⟨applied, htally, happlies⟩ :=
    Program.exists_applies hsides happart (List.append_nil _).symm hdescribe
  rw [← htext] at hnone
  have hbuild : c.program.build s.settings s.cache = c.program.buildFresh s.settings :=
    Program.build_eq_buildFresh fun pair hpair name hside => hnone name ⟨pair, hpair, hside⟩
  refine ⟨applied, ?_, ?_⟩
  · rw [hbuild, Program.tally_buildFresh hseed, htally]
  · rw [outcome_generate_eq_map hc, hbuild]
    unfold Program.buildFresh
    rw [Run.outcome_bind, hseed]
    simp only [Except.bind, Run.outcome_note_bind]
    exact happlies.map _

/-- No token reaches into a name at hand in which the notation ends. -/
theorem Reachable.before_or_within (h : Reachable settings s) (hc : input.compile = .ok c)
    {name : Text} (hname : s.NameAtHand name) (hsuffix : name <:+ c.text) {t : Token}
    (ht : t ∈ c.program.operations) :
    t.span.stop ≤ c.text.byteLength - name.byteLength ∨
      c.text.byteLength - name.byteLength ≤ t.span.start := by
  obtain ⟨⟨front, last, hreads⟩, -⟩ := Text.reads_of_compile hc
  obtain ⟨-, -, htext⟩ := Text.text_of_compile hc
  rw [← htext] at hsuffix ⊢
  exact hreads.before_or_within (h.startsWithLetter hname) hsuffix ht

theorem exists_longestSuffix {t name : Text} (hname : s.NameAtHand name) (hsuffix : name <:+ t) :
    ∃ name, t.LongestSuffix s.NameAtHand name := by
  obtain ⟨pair, hpair, hside⟩ := hname
  obtain ⟨longest, hlongest⟩ := DualPair.exists_longestSuffix hside hsuffix
  refine ⟨longest, ⟨pair, hpair, hlongest.isName⟩, hlongest.suffix, fun other hother hend => ?_⟩
  obtain ⟨pair', hpair', hside'⟩ := hother
  obtain rfl := Option.some.inj (hpair.symm.trans hpair')
  exact hlongest.longest other hside' hend

/--
Whatever requests came before, an accepted notation makes one of three counts
grow, by one.  It is a hit just when the notation is the name of the solid at hand
or of its dual; then it is answered, nothing is applied, and the sides are exchanged
just when it is the dual's.  Else it is resumed just when such a name ends the
notation, and what counts are the tokens in front of the longest one, none of which
reaches into the name.  Else a seed is built, and all tokens count.  If a token would
outgrow the limits then the request is refused, and only the tokens behind it count.
-/
theorem Reachable.tally_generate (h : Reachable settings s) (hc : input.compile = .ok c) :
    ∃ done : Tally, (s.generate input).1.tally = s.tally + done ∧
      done.cacheHits + done.resumed + done.seedsBuilt = 1 ∧
      (done.cacheHits = 1 ↔ s.NameAtHand c.text) ∧
      (s.NameAtHand c.text → (∃ g, (s.generate input).2.outcome = .ok g) ∧
        done.operatorsApplied = 0 ∧ done.dualSwaps ≤ 1 ∧
          (done.dualSwaps = 1 ↔ ∃ pair ∈ s.cache, c.text = pair.dual.name)) ∧
      (¬ s.NameAtHand c.text →
        (done.resumed = 1 ↔ ∃ name, s.NameAtHand name ∧ name <:+ c.text) ∧
        (∀ name, c.text.LongestSuffix s.NameAtHand name → ∃ applied,
          c.program.Applies settings (s.generate input).2.outcome (c.program.tokensBefore name)
              applied ∧
            done.operatorsApplied = applied.countP (fun t => !t.isDual) ∧
              done.dualSwaps = applied.countP Token.isDual) ∧
        ((∀ name, s.NameAtHand name → ¬ name <:+ c.text) → ∃ applied,
          c.program.Applies settings (s.generate input).2.outcome c.program.operations applied ∧
            done.operatorsApplied = applied.countP (fun t => !t.isDual) ∧
              done.dualSwaps = applied.countP Token.isDual)) ∧
      ∀ name, s.NameAtHand name → name <:+ c.text → ∀ t ∈ c.program.operations,
        t.span.stop ≤ c.text.byteLength - name.byteLength ∨
          c.text.byteLength - name.byteLength ≤ t.span.start := by
  obtain ⟨-, -, htext⟩ := Text.text_of_compile hc
  have hspans : ∀ name, s.NameAtHand name → name <:+ c.text → ∀ t ∈ c.program.operations,
      t.span.stop ≤ c.text.byteLength - name.byteLength ∨
        c.text.byteLength - name.byteLength ≤ t.span.start :=
    fun _ hname hsuffix _ ht => h.before_or_within hc hname hsuffix ht
  have hhit := h.tally_build_of_atHand (p := c.program)
  have hresumed := fun hother name (hname : c.text.LongestSuffix s.NameAtHand name) =>
    h.tally_build_of_suffix hc hother hname
  have hfresh := h.tally_build_of_no_suffix hc
  rw [htext] at hhit
  refine ⟨_, tally_generate_eq hc, ?_⟩
  generalize (c.program.build s.settings s.cache).tally = done at hhit hresumed hfresh ⊢
  by_cases hatHand : s.NameAtHand c.text
  · have hanswer := h.exists_answer_of_atHand hc hatHand
    rcases hhit hatHand with ⟨hdone, hdual⟩ | ⟨hdone, hdual⟩
    · subst hdone
      exact ⟨rfl, by simp [hatHand], fun _ => ⟨hanswer, rfl, by simp, by simpa using hdual⟩,
        fun hother => absurd hatHand hother, hspans⟩
    · subst hdone
      exact ⟨rfl, by simp [hatHand], fun _ => ⟨hanswer, rfl, by simp, by simpa using hdual⟩,
        fun hother => absurd hatHand hother, hspans⟩
  · by_cases hends : ∃ name, s.NameAtHand name ∧ name <:+ c.text
    · obtain ⟨name, hname, hsuffix⟩ := hends
      obtain ⟨longest, hlongest⟩ := exists_longestSuffix hname hsuffix
      obtain ⟨applied, hdone, -⟩ := hresumed hatHand longest hlongest
      refine ⟨by simp [hdone], by simp [hdone, hatHand],
        fun hhit => absurd hhit hatHand, fun _ => ⟨?_, fun name' hname' => ?_, fun hnone => ?_⟩,
        hspans⟩
      · simpa [hdone] using ⟨name, hname, hsuffix⟩
      · obtain ⟨applied', hdone', happlies⟩ := hresumed hatHand name' hname'
        exact ⟨applied', happlies, by simp [hdone'], by simp [hdone']⟩
      · exact absurd hsuffix (hnone name hname)
    · have hnone : ∀ name, s.NameAtHand name → ¬ name <:+ c.text :=
        fun name hname hsuffix => hends ⟨name, hname, hsuffix⟩
      obtain ⟨applied, hdone, happlies⟩ := hfresh hnone
      refine ⟨by simp [hdone], by simp [hdone, hatHand],
        fun hhit => absurd hhit hatHand, fun _ => ⟨?_, fun name' hname' => ?_, fun _ => ?_⟩,
        hspans⟩
      · simpa [hdone] using hnone
      · exact absurd hname'.suffix (hnone name' hname'.isName)
      · exact ⟨applied, happlies, by simp [hdone], by simp [hdone]⟩

/--
A session that has `kC` and `dkC` at hand is asked for `cdkC`, which ends in both:
it goes on from `dkC`.
-/
theorem Reachable.tally_generate_dual_kis_cube :
    Reachable {} (({} : Session).generate ['k', 'C']).1 ∧
      ∃ c, Text.compile ['c', 'd', 'k', 'C'] = .ok c ∧ ∃ done : Tally,
        ((({} : Session).generate ['k', 'C']).1.generate ['c', 'd', 'k', 'C']).1.tally =
            (({} : Session).generate ['k', 'C']).1.tally + done ∧
          done.cacheHits + done.resumed + done.seedsBuilt = 1 ∧ done.resumed = 1 ∧
            done.operatorsApplied = 1 ∧ done.dualSwaps = 0 := by
  have hfresh : Reachable {} {} := .fresh
  have hreachable := hfresh.generate ['k', 'C']
  obtain ⟨p, hp, -⟩ := compile_of_validate (show Text.validate ['k', 'C'] = .ok () by decide)
  obtain ⟨q, hq, -⟩ := compile_of_validate
    (show Text.validate ['c', 'd', 'k', 'C'] = .ok () by decide)
  have hbefore : ∀ c ∈ (Text.compile ['k', 'C']).toOption,
      c.program.operations ≠ [] ∧ c.program.Small ∧ c.text.terse = ['k', 'C'] := by decide
  have hasked : ∀ c ∈ (Text.compile ['c', 'd', 'k', 'C']).toOption,
      c.program.Small ∧ c.text = ['c', 'd', 'k', 'C'] ∧
        (c.program.tokensBefore ['d', 'k', 'C']).countP (fun t => !t.isDual) = 1 ∧
          (c.program.tokensBefore ['d', 'k', 'C']).countP Token.isDual = 0 := by decide
  obtain ⟨hoperations, hsmall, hterse⟩ := hbefore _ (by rw [hp]; rfl)
  obtain ⟨hsmall', htext, hoperators, hduals⟩ := hasked _ (by rw [hq]; rfl)
  obtain ⟨g, hg⟩ := hfresh.exists_answer hp hsmall
  have hname : ∀ name, (({} : Session).generate ['k', 'C']).1.NameAtHand name ↔
      name = ['k', 'C'] ∨ name = ['d', 'k', 'C'] := by
    intro name
    rw [hfresh.nameAtHand_iff hp hoperations hg, hterse]
    rfl
  obtain ⟨done, hdone, hone, -, -, hwork, -⟩ := hreachable.tally_generate hq
  rw [htext] at hwork
  obtain ⟨hresumed, hlongest, -⟩ := hwork (by rw [hname]; decide)
  have hends : ['d', 'k', 'C'] <:+ ['c', 'd', 'k', 'C'] := ⟨['c'], rfl⟩
  have hdual : Text.LongestSuffix ['c', 'd', 'k', 'C']
      (({} : Session).generate ['k', 'C']).1.NameAtHand ['d', 'k', 'C'] := by
    refine ⟨(hname _).2 (.inr rfl), hends, fun other hother _ => ?_⟩
    rcases (hname other).1 hother with hside | hside
    · rw [hside]
      decide
    · rw [hside]
  obtain ⟨applied, happlies, hoperators', hduals'⟩ := hlongest _ hdual
  obtain ⟨g', hg'⟩ := hreachable.exists_answer hq hsmall'
  cases happlies with
  | all _ =>
    exact ⟨hreachable, _, hq, done, hdone, hone, hresumed.2 ⟨_, hdual.isName, hends⟩,
      hoperators'.trans hoperators, hduals'.trans hduals⟩
  | upTo refused => exact nomatch refused.symm.trans hg'

/-! ### Gyro upon gyro -/

theorem dualsApart_gyros (k : Nat) (seed : Seed) : DualsApart (List.replicate k .gyro) seed := by
  induction k with
  | zero => trivial
  | succ k ih => exact ⟨fun hdual => (nomatch hdual), ih⟩

/-- What gyros alone describe has five times as many edges for each of them. -/
theorem edgeCount_of_describe_gyros {seed : Seed} {solid : Solid} {k : Nat}
    (hsides : ∀ n, seed.sides? = some n → minSeedSides ≤ n ∧ n ≤ maxSeedSides)
    (h : describe settings (List.replicate k .gyro) seed = .ok solid) :
    solid.Sound ∧ solid.mesh.edgeCount = 5 ^ k * seed.mesh.edgeCount := by
  refine ⟨sound_of_describe hsides (dualsApart_gyros k seed) h, ?_⟩
  induction k generalizing solid with
  | zero =>
    obtain ⟨s, hs, -, hcounts, -⟩ := Seed.exists_sound settings hsides
    rw [List.replicate_zero, describe, hs] at h
    obtain rfl := Except.ok.inj h
    obtain ⟨hvertices, hfaces⟩ := Prod.mk.inj hcounts
    rw [Mesh.edgeCount, Mesh.edgeCount, hvertices, hfaces, Nat.pow_zero, Nat.one_mul]
  | succ k ih =>
    rw [List.replicate_succ, describe_cons] at h
    obtain ⟨before, hbefore, hstep⟩ := Except.bind_eq_ok.1 h
    have hsound := sound_of_describe hsides (dualsApart_gyros k seed) hbefore
    have hcounts :=
      ((step_of_describe hsides (dualsApart_gyros (k + 1) seed) hbefore).2 solid hstep).2
    rw [Operation.size_gyro hsound.mesh.toSpherical] at hcounts
    obtain ⟨hvertices, hfaces⟩ := Prod.mk.inj hcounts
    have hedges : solid.mesh.edgeCount = 5 * before.mesh.edgeCount := by
      rw [Mesh.edgeCount, hvertices, hfaces]
      omega
    rw [hedges, ih hbefore, ← Nat.mul_assoc, Nat.pow_succ, Nat.mul_comm 5]

theorem sides_prism_allowed :
    ∀ n, (Seed.prism 8889).sides? = some n → minSeedSides ≤ n ∧ n ≤ maxSeedSides :=
  fun n hn => Option.some.inj hn ▸ by decide

/-- Four gyros of the prism over 8889 sides are too many, and three are not. -/
theorem sizeFault?_gyros_prism {k : Nat} (hk : k ≤ 3) {solid : Solid}
    (h : describe settings (List.replicate k .gyro) (.prism 8889) = .ok solid) :
    Operation.gyro.sizeFault? solid.mesh =
      if k = 3 then some (.tooManyVertices 10000127 maxVertices) else none := by
  obtain ⟨hsound, hedges⟩ := edgeCount_of_describe_gyros sides_prism_allowed h
  have hprism : (Seed.prism 8889).mesh.edgeCount = 26667 := by
    rw [Seed.mesh, Mesh.edgeCount, Mesh.faceCount_prism, Mesh.vertexCount_prism]
  rw [Operation.sizeFault?, Operation.size_gyro hsound.mesh.toSpherical, hedges, hprism]
  obtain rfl | rfl | rfl | rfl : k = 0 ∨ k = 1 ∨ k = 2 ∨ k = 3 := by omega
  all_goals rfl

/--
Of four gyros of the prism over 8889 sides the last would lead to more than ten
million vertices.  It is refused, and three operations are counted.
-/
theorem tally_generate_gyros_prism :
    ∃ c, Text.compile ['g', 'g', 'g', 'g', 'P', '8', '8', '8', '9'] = .ok c ∧
      c.program.operations.countP (fun t => !t.isDual) = 4 ∧
      (({ settings := { gyro := 0, prism := 0 } } : Session).generate
        ['g', 'g', 'g', 'g', 'P', '8', '8', '8', '9']).2.outcome =
          .error (.tooManyVertices 10000127 maxVertices) ∧
      (({ settings := { gyro := 0, prism := 0 } } : Session).generate
        ['g', 'g', 'g', 'g', 'P', '8', '8', '8', '9']).1.tally =
          { seedsBuilt := 1, operatorsApplied := 3 } := by
  have hfresh : Reachable { gyro := 0, prism := 0 } { settings := { gyro := 0, prism := 0 } } :=
    .fresh
  obtain ⟨p, hc, -⟩ := compile_of_validate
    (show Text.validate ['g', 'g', 'g', 'g', 'P', '8', '8', '8', '9'] = .ok () by decide)
  have hprogram : ∀ c ∈ (Text.compile ['g', 'g', 'g', 'g', 'P', '8', '8', '8', '9']).toOption,
      c.program.operations.map Token.operation = List.replicate 4 .gyro ∧
        c.program.seed = .prism 8889 := by decide
  obtain ⟨hoperations, hseed⟩ := hprogram _ (by rw [hc]; rfl)
  have hgyro : Operation.gyro ≠ .dual := by decide
  obtain ⟨applied, htally, happlies⟩ :=
    hfresh.tally_build_of_no_suffix hc fun name ⟨pair, hpair, _⟩ => (nomatch hpair)
  refine ⟨_, hc, congrArg Tally.operatorsApplied (Tally.ofTokens_replicate hgyro hoperations), ?_⟩
  rw [tally_generate_eq hc, htally]
  cases happlies with
  | all answered =>
    -- the last gyro would have been applied to what the others described
    rw [hfresh.outcome_generate_eq hc, hoperations, hseed] at answered
    obtain ⟨solid, hsolid, -⟩ := Except.map_eq_ok.1 answered
    rw [List.replicate_succ, describe_cons] at hsolid
    obtain ⟨before, hbefore, hstep⟩ := Except.bind_eq_ok.1 hsolid
    have hfits :=
      ((step_of_describe sides_prism_allowed (dualsApart_gyros 4 _) hbefore).2 solid hstep).1
    rw [sizeFault?_gyros_prism (Nat.le_refl 3) hbefore] at hfits
    cases hfits
  | @upTo e t _ behind solid refused suffix whole before size =>
    obtain rfl := List.self_eq_append_right.1 whole
    obtain ⟨front, hfront⟩ := suffix
    rw [← hfront, List.map_append, List.map_cons, List.append_eq_replicate_iff] at hoperations
    obtain ⟨hlength, -, hbehind⟩ := hoperations
    obtain ⟨hgyro', happlied⟩ := List.cons.inj hbehind
    rw [List.length_map, List.length_cons, List.length_map] at hlength
    rw [List.length_map] at happlied
    rw [List.append_nil, happlied, hseed] at before
    rw [hgyro', sizeFault?_gyros_prism (by omega) before] at size
    obtain ⟨hthree, he⟩ := Option.ite_none_right_eq_some.1 size
    obtain rfl := Option.some.inj he
    refine ⟨refused, ?_⟩
    rw [Tally.ofTokens_replicate hgyro happlied, hthree]
    rfl

end Session

end Polyhedra
