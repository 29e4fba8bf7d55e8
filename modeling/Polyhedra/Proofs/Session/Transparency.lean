import Polyhedra.Proofs.Session.Description

/-!
# Transparency of the cache

What a session has at hand never shows in what it answers.  The pair at hand is
`Recalled` from both sides: each side has a name that spells operations and a
seed, and the pair seen from that side is exactly what these describe.  A
program whose notation ends in such a name, where a token begins, ends in these
operations and has this seed, so that building on the pair is a way to run
through the same steps from the middle on.

## Main results

* `Program.outcome_build` — with a recalled pair at hand, a program is built to
  the same outcome as from its seed.
* `Session.Reachable.recalled` — every session has nothing or a recalled pair at
  hand.
* `Session.Reachable.outcome_generate` — every session answers as a new one does.
-/

namespace Polyhedra

variable {settings : Settings}

/-! ## Recalled pairs -/

/-- The pair is what the operations make of the seed, and its solid is named after them. -/
structure DualPair.Made (settings : Settings) (pair : DualPair) (ops : List Operation)
    (seed : Seed) : Prop where
  name : pair.solid.name = spelling ops seed
  described : describe settings ops seed = .ok (Solid.ofPair pair)

/-- The pair is what the name of its solid describes. -/
def DualPair.Recalled (settings : Settings) (pair : DualPair) : Prop :=
  ∃ ops seed, pair.solid.name = spelling ops seed ∧
    describe settings ops seed = .ok (Solid.ofPair pair)

/--
A described solid that came with its dual is made by its operations, and the dual by
those with one more or one less dual in front.
-/
theorem made_of_describe {ops : List Operation} {seed : Seed} {solid : Solid}
    {pair : DualPair} (happart : DualsApart ops seed)
    (h : describe settings ops seed = .ok solid) (hpair : solid.pair? = some pair) :
    pair.Made settings ops seed ∧ ∃ others, pair.swap.Made settings others seed ∧
      (ops = .dual :: others ∨ others = .dual :: ops) := by
  have hnamed := named_of_describe happart h
  obtain ⟨mesh, dual⟩ := solid
  obtain ⟨d, rfl, rfl⟩ := Option.map_eq_some_iff.1 hpair
  refine ⟨⟨hnamed.mesh, h⟩, ?_⟩
  by_cases hhead : ops.head? = some .dual
  · -- the first operation exchanged the solid with its dual: take it back
    obtain ⟨ops, rfl⟩ := List.head?_eq_some_iff.1 hhead
    rw [describe_cons] at h
    obtain ⟨before, hbefore, h⟩ := Except.bind_eq_ok.1 h
    obtain ⟨e, he, heq⟩ := Solid.exchange_eq_ok h
    obtain ⟨rfl, hd⟩ := Solid.mk.inj heq
    have hbefore' : before = ⟨d, some mesh⟩ := by
      obtain ⟨m, dual?⟩ := before
      rw [Option.some.inj hd, ← he]
    subst hbefore'
    exact ⟨ops, ⟨(named_of_describe happart.2 hbefore).mesh, hbefore⟩, .inl rfl⟩
  · refine ⟨.dual :: ops, ⟨?_, ?_⟩, .inr rfl⟩
    · have hname := hnamed.dual d rfl
      rw [dualName_of_head? (head?_spelling_ne hhead seed)] at hname
      exact hname.trans (spelling_dual_cons ops seed).symm
    · rw [describe_cons, h]
      exact Solid.outcome_exchange rfl

theorem DualPair.Made.recalled {pair : DualPair} {ops : List Operation} {seed : Seed}
    (h : pair.Made settings ops seed) : pair.Recalled settings :=
  ⟨ops, seed, h.name, h.described⟩

/-- A described solid that came with its dual is recalled from both sides. -/
theorem recalled_of_describe {ops : List Operation} {seed : Seed} {solid : Solid}
    {pair : DualPair} (happart : DualsApart ops seed)
    (h : describe settings ops seed = .ok solid) (hpair : solid.pair? = some pair) :
    pair.Recalled settings ∧ pair.swap.Recalled settings := by
  obtain ⟨hmade, others, hswap, -⟩ := made_of_describe happart h hpair
  exact ⟨hmade.recalled, hswap.recalled⟩

/-! ## Building with a pair at hand -/

namespace Program

variable {p : Program} {front : List Lexeme} {last : Lexeme}

/--
The tokens that are pending on a solid, followed by what its name spells, make
up the whole program.
-/
theorem Reads.pendingOn?_spelling (h : p.Reads front last) {ops : List Operation} {seed : Seed}
    {pending : List Token} (hpending : p.pendingOn? (spelling ops seed) = some pending) :
    p.operations.map Token.operation = pending.map Token.operation ++ ops ∧ p.seed = seed := by
  have behind : ∀ {rest : List Token}, p.operations = pending ++ rest →
      rest.map Token.operation = ops ∧ p.seed = seed →
      p.operations.map Token.operation = pending.map Token.operation ++ ops ∧ p.seed = seed := by
    rintro rest hops ⟨hrest, hseed⟩
    rw [hops, List.map_append, hrest]
    exact ⟨rfl, hseed⟩
  unfold pendingOn? at hpending
  split at hpending
  · next hsuffix =>
    have hsuffix := List.isSuffixOf_iff_suffix.1 hsuffix.2
    simp only at hpending
    split at hpending
    · next hbegin =>
      obtain rfl := Option.some.inj hpending
      have hnil : p.operations = p.operations ++ [] := (List.append_nil _).symm
      refine behind hnil (h.of_suffix_tokens hnil hsuffix fun ms ns hfront halong => ?_)
      cases halong
      rw [hbegin, h.seedStart, hfront, List.append_nil]
    · split at hpending
      · next hany =>
        obtain rfl := Option.some.inj hpending
        have hcut := (List.takeWhile_append_dropWhile
          (p := fun t : Token => t.span.start != p.text.byteLength - (spelling ops seed).byteLength)
          (l := p.operations)).symm
        exact behind hcut (h.of_suffix_tokens hcut hsuffix fun _ _ _ halong =>
          halong.start_dropWhile hany)
      · simp at hpending
  · simp at hpending

theorem outcome_buildOn (pair : DualPair) (pending : List Token) :
    (buildOn settings pair pending).outcome =
      (Solid.ofPair pair).applied settings (pending.map Token.operation) := by
  unfold buildOn
  rw [Run.outcome_note_bind, Solid.outcome_applyTokens]

/-- Building on a recalled pair does what building from the seed does. -/
theorem outcome_buildOn_of_pendingOn? (h : p.Reads front last) {pair : DualPair}
    (hpair : pair.Recalled settings) {pending : List Token}
    (hpending : p.pendingOn? pair.solid.name = some pending) :
    (buildOn settings pair pending).outcome = (p.buildFresh settings).outcome := by
  obtain ⟨ops, seed, hname, hdescribe⟩ := hpair
  rw [hname] at hpending
  obtain ⟨hops, hseed⟩ := h.pendingOn?_spelling hpending
  rw [outcome_buildOn, outcome_buildFresh, hops, hseed, describe_append, hdescribe]
  rfl

theorem resumePoint?_eq_some {cache pair : DualPair} {pending : List Token}
    (h : p.resumePoint? cache = some (pair, pending)) :
    (pair = cache ∨ pair = cache.swap) ∧ p.pendingOn? pair.solid.name = some pending := by
  unfold resumePoint? at h
  split at h
  · next a b ha hb =>
    split at h <;> cases h
    · exact ⟨.inr rfl, hb⟩
    · exact ⟨.inl rfl, ha⟩
  · next a ha _ =>
    cases h
    exact ⟨.inl rfl, ha⟩
  · next b _ hb =>
    cases h
    exact ⟨.inr rfl, hb⟩
  · simp at h

theorem outcome_buildFresh_of_name (h : p.Reads front last) {pair : DualPair}
    (hpair : pair.Recalled settings) (hname : pair.solid.name = p.text) :
    (p.buildFresh settings).outcome = .ok (Solid.ofPair pair) := by
  obtain ⟨ops, seed, hspelling, hdescribe⟩ := hpair
  obtain ⟨hops, hseed⟩ := h.of_text_eq (hname.symm.trans hspelling)
  rw [outcome_buildFresh, hops, hseed, hdescribe]

/-- With a recalled pair at hand, or with none, a program is built as from its seed. -/
theorem outcome_build (h : p.Reads front last) {cache : Option DualPair}
    (hcache : ∀ pair ∈ cache, pair.Recalled settings ∧ pair.swap.Recalled settings) :
    (p.build settings cache).outcome = (p.buildFresh settings).outcome := by
  cases cache with
  | none => rfl
  | some pair =>
    obtain ⟨hpair, hswap⟩ := hcache pair rfl
    simp only [build]
    split
    · next hname =>
      rw [Run.outcome_note_bind, outcome_buildFresh_of_name h hpair hname]
      rfl
    · split
      · next hname =>
        rw [Run.outcome_bind, Solid.outcome_exchange rfl,
          outcome_buildFresh_of_name h hswap hname]
        rfl
      · split
        · next start pending hresume =>
          obtain ⟨rfl | rfl, hpending⟩ := resumePoint?_eq_some hresume
          · exact outcome_buildOn_of_pendingOn? h hpair hpending
          · exact outcome_buildOn_of_pendingOn? h hswap hpending
        · rfl

end Program

/-! ## Sessions -/

/-- What is compiled is read from the canonical form. -/
theorem Text.parse_of_compile {input : Text} {c : Compiled} (h : input.compile = .ok c) :
    Program.parse input.reduce.output = .ok c.program := by
  unfold compile at h
  split at h
  · simp at h
  · obtain ⟨p, hp, rfl⟩ := Except.map_eq_ok.1 h
    exact hp

/-- In what compiles duals stand apart, since they do in the canonical form. -/
theorem Text.reads_of_compile {input : Text} {c : Compiled} (h : input.compile = .ok c) :
    (∃ front last, c.program.Reads front last) ∧
      DualsApart (c.program.operations.map Token.operation) c.program.seed := by
  obtain ⟨htext, ⟨front, last, hreads⟩, _⟩ := Program.exists_reads (parse_of_compile h)
  exact ⟨⟨front, last, hreads⟩, hreads.dualsApart (htext ▸ input.plain_reduce)⟩

namespace Session

/-- Whatever the session has at hand is recalled from both sides. -/
def Recalls (settings : Settings) (s : Session) : Prop :=
  ∀ pair ∈ s.cache, pair.Recalled settings ∧ pair.swap.Recalled settings

/-- After a build there is at hand what was there before, or what the program describes. -/
theorem Recalls.cache_of_build {s : Session} (h : s.Recalls s.settings) {p : Program}
    {front : List Lexeme} {last : Lexeme} (hp : p.Reads front last) {pair : DualPair}
    (hpair : (s.build p).1.cache = some pair) :
    s.cache = some pair ∨
      ∃ solid, describe s.settings (p.operations.map Token.operation) p.seed = .ok solid ∧
        solid.pair? = some pair := by
  have hbuild := Program.outcome_build hp h
  rw [Program.outcome_buildFresh] at hbuild
  unfold Session.build after at hpair
  simp only at hpair
  rw [hbuild] at hpair
  cases hdescribe : describe s.settings (p.operations.map Token.operation) p.seed with
  | error e =>
    rw [hdescribe] at hpair
    exact .inl hpair
  | ok solid =>
    rw [hdescribe] at hpair
    rcases Option.or_eq_some_iff.1 hpair with hpair | ⟨-, hpair⟩
    · exact .inr ⟨solid, rfl, hpair⟩
    · exact .inl hpair

theorem Recalls.build {s : Session} (h : s.Recalls s.settings) {p : Program}
    {front : List Lexeme} {last : Lexeme} (hp : p.Reads front last)
    (happart : DualsApart (p.operations.map Token.operation) p.seed) :
    (s.build p).1.Recalls s.settings := by
  intro pair hpair
  rcases h.cache_of_build hp hpair with hbefore | ⟨solid, hdescribe, hpair⟩
  · exact h pair hbefore
  · exact recalled_of_describe happart hdescribe hpair

/-- No request puts anything into the cache that is not recalled from both sides. -/
theorem Reachable.recalled {s : Session} (h : Reachable settings s) : s.Recalls settings := by
  induction h with
  | fresh => simp [Recalls]
  | clear _ _ => simp [Recalls, Session.clear]
  | @generate s input before ih =>
    obtain rfl := before.settings_eq
    unfold Session.generate
    split
    · exact ih
    · next c hc =>
      obtain ⟨⟨front, last, hreads⟩, happart⟩ := Text.reads_of_compile hc
      exact ih.build hreads happart

/--
Whatever requests came before, a session answers as a new one with the same
settings does: with the same solid and the same trace, or with the same fault.
-/
theorem Reachable.outcome_generate {s : Session} (h : Reachable settings s) (input : Text) :
    (s.generate input).2.outcome =
      (({ settings := settings } : Session).generate input).2.outcome := by
  obtain rfl := h.settings_eq
  unfold Session.generate
  split
  · rfl
  · next c hc =>
    obtain ⟨⟨front, last, hreads⟩, _⟩ := Text.reads_of_compile hc
    have hbuild := Program.outcome_build hreads h.recalled
    simp only [Session.build, Run.outcome_bind, Run.outcome_map, hbuild]
    rfl

/-- A session that has the kis of the cube at hand answers for its dual as a new one does. -/
theorem Reachable.outcome_generate_dual_kis_cube :
    Reachable {} (({} : Session).generate ['k', 'C']).1 ∧
      ((({} : Session).generate ['k', 'C']).1.generate ['d', 'k', 'C']).2.outcome =
        (({} : Session).generate ['d', 'k', 'C']).2.outcome :=
  have hreachable := Reachable.fresh.generate ['k', 'C']
  ⟨hreachable, hreachable.outcome_generate ['d', 'k', 'C']⟩

end Session

end Polyhedra
