import Mathlib.Computability.StateTransition
import Polyhedra.Proofs.Session.Tally

/-!
# Builds in place

A build need not wait for its end to write to the session.  It may count each piece of work
when it is done, exchange the solid at hand with its dual where it is, and lay down what it
has made in the end.  `Workbench.step?` is a build of this kind, taken in steps: a seed, or a
solid at hand, then one token after another, each of which may fail.

There are two steps only that write to the place of the solid at hand, and both are the last
ones of a build that succeeds (`Workbench.step?_cases`).  So nothing can be seen there of a
build that goes on, or has failed (`Workbench.Reaches.cache_of_error`).

## Main results

* `Workbench.step?_cases`, `Workbench.Reaches.untouched` — what a step can do to the session, and
  what holds of it while a build goes on.
* `Workbench.eval_start` — a build in place ends as `Session.build` tells.
* `Workbench.Reaches.cache_of_error` — on the way to a failure nothing is laid down.
-/

namespace Polyhedra

/-! ## Counts only grow -/

namespace Tally

/-- No counter is higher than in the other tally. -/
structure Within (t u : Tally) : Prop where
  seedsBuilt : t.seedsBuilt ≤ u.seedsBuilt
  operatorsApplied : t.operatorsApplied ≤ u.operatorsApplied
  cacheHits : t.cacheHits ≤ u.cacheHits
  dualSwaps : t.dualSwaps ≤ u.dualSwaps
  resumed : t.resumed ≤ u.resumed

theorem Within.refl (t : Tally) : t.Within t := ⟨le_rfl, le_rfl, le_rfl, le_rfl, le_rfl⟩

theorem Within.trans {t u v : Tally} (h : t.Within u) (h' : u.Within v) : t.Within v where
  seedsBuilt := h.seedsBuilt.trans h'.seedsBuilt
  operatorsApplied := h.operatorsApplied.trans h'.operatorsApplied
  cacheHits := h.cacheHits.trans h'.cacheHits
  dualSwaps := h.dualSwaps.trans h'.dualSwaps
  resumed := h.resumed.trans h'.resumed

theorem within_add (t u : Tally) : t.Within (t + u) where
  seedsBuilt := Nat.le_add_right _ _
  operatorsApplied := Nat.le_add_right _ _
  cacheHits := Nat.le_add_right _ _
  dualSwaps := Nat.le_add_right _ _
  resumed := Nat.le_add_right _ _

theorem Within.add_right {t u : Tally} (h : t.Within u) (v : Tally) : (t + v).Within (u + v) where
  seedsBuilt := Nat.add_le_add_right h.seedsBuilt _
  operatorsApplied := Nat.add_le_add_right h.operatorsApplied _
  cacheHits := Nat.add_le_add_right h.cacheHits _
  dualSwaps := Nat.add_le_add_right h.dualSwaps _
  resumed := Nat.add_le_add_right h.resumed _

theorem within_recordAll (t : Tally) (journal : List Event) : t.Within (t.recordAll journal) := by
  rw [recordAll_eq_add]
  exact t.within_add _

end Tally

/-! ## Work in steps -/

namespace Solid

variable {settings : Settings}

/-- Tokens are applied in two goes, the last ones first. -/
theorem applyTokens_append (ts more : List Token) (s : Solid) :
    s.applyTokens settings (ts ++ more) =
      s.applyTokens settings more >>= fun s => s.applyTokens settings ts := by
  simp only [applyTokens_eq_perform, List.map_append, perform_append]

theorem applyTokens_singleton (t : Token) (s : Solid) :
    s.applyTokens settings [t] = s.step settings t.operation := pure_bind s _

end Solid

/-- Building the seed is one piece of work, and each token is another. -/
theorem Program.buildFresh_eq (settings : Settings) (p : Program) :
    p.buildFresh settings = (p.seed.build settings <* Run.note .seedBuilt) >>=
      fun seed => seed.applyTokens settings p.operations := by
  simp [buildFresh, seqLeft_eq_bind]

/-! ## The workbench -/

/-- What a build is going to do next, or how it ended. -/
inductive Phase where
  /-- It is going to look at what is at hand. -/
  | asked
  /-- It is going to build the seed. -/
  | seeding
  /-- It is going to apply tokens to a solid, the first one of the list first. -/
  | working (solid : Solid) (todo : List Token)
  | built (solid : Mesh)
  | failed (fault : MeshError)

namespace Phase

/-- The end of a build with the given outcome. -/
def ofOutcome : Except MeshError Mesh → Phase
  | .ok solid => built solid
  | .error fault => failed fault

end Phase

/-- A build under way: the session as it is by now, and the journal of the build so far. -/
structure Workbench where
  session : Session
  journal : List Event
  phase : Phase

namespace Workbench

/-- A build is going to begin. -/
def start (s : Session) : Workbench := ⟨s, [], .asked⟩

/-- Events are entered into the journal and counted at once. -/
def enter (w : Workbench) (events : List Event) (phase : Phase) : Workbench where
  session := { w.session with tally := w.session.tally.recordAll events }
  journal := w.journal ++ events
  phase := phase

/-- A piece of work is done, which may fail. -/
def follow {α : Type} (w : Workbench) (run : Run α) (next : α → Phase) : Workbench :=
  w.enter run.journal
    (match run.outcome with
    | .ok a => next a
    | .error fault => .failed fault)

/-- Lays down a pair in the place of the solid at hand. -/
def lay (w : Workbench) (pair : DualPair) : Workbench :=
  { w with session := { w.session with cache := some pair } }

/-- The next step of a build of the program, unless the build has ended. -/
def step? (p : Program) (w : Workbench) : Option Workbench :=
  match w.phase with
  | .asked =>
    match w.session.cache with
    | none => some (w.enter [] .seeding)
    | some cache =>
      if cache.solid.name = p.text then some (w.enter [.cacheHit] (.built cache.solid))
      else if cache.dual.name = p.text then
        some ((w.enter [.swapped cache.solid.name, .cacheHit] (.built cache.dual)).lay cache.swap)
      else
        match p.resumePoint? cache with
        | some (pair, pending) =>
          some (w.enter [.resumed pair.solid.name] (.working (.ofPair pair) pending.reverse))
        | none => some (w.enter [] .seeding)
  | .seeding =>
    some (w.follow (p.seed.build w.session.settings <* Run.note .seedBuilt)
      (.working · p.operations.reverse))
  | .working solid (t :: todo) =>
    some (w.follow (solid.step w.session.settings t.operation) (.working · todo))
  | .working solid [] =>
    match solid.pair? with
    | some pair => some ((w.enter [] (.built solid.mesh)).lay pair)
    | none => some (w.enter [] (.built solid.mesh))
  | .built _ | .failed _ => none

/-- Some steps of a build of the program lead from one to the other. -/
abbrev Reaches (p : Program) : Workbench → Workbench → Prop := StateTransition.Reaches (step? p)

variable {p : Program} {w w' : Workbench}

/-! ## While a build goes on -/

/--
A step enters events, and that is all it does to the session; or it is the last one of a build
that succeeds, and also lays down what is at hand from then on.
-/
theorem step?_cases (h : w.step? p = some w') :
    (∃ events phase, w' = w.enter events phase) ∨
      ∃ events solid pair, w' = (w.enter events (.built solid)).lay pair := by
  unfold step? at h
  -- by phases; what is at hand is written to when it is exchanged, or when nothing is left to do
  split at h
  case h_1 =>
    split at h
    · exact .inl ⟨_, _, (Option.some.inj h).symm⟩
    · split at h
      · exact .inl ⟨_, _, (Option.some.inj h).symm⟩
      · split at h
        · exact .inr ⟨_, _, _, (Option.some.inj h).symm⟩
        · split at h <;> exact .inl ⟨_, _, (Option.some.inj h).symm⟩
  case h_2 => exact .inl ⟨_, _, (Option.some.inj h).symm⟩
  case h_3 => exact .inl ⟨_, _, (Option.some.inj h).symm⟩
  case h_4 =>
    split at h
    · exact .inr ⟨_, _, _, (Option.some.inj h).symm⟩
    · exact .inl ⟨_, _, (Option.some.inj h).symm⟩
  case h_5 => cases h
  case h_6 => cases h

/-- What holds of the session, as against the one from which the build started. -/
structure Untouched (s : Session) (w : Workbench) : Prop where
  settings : w.session.settings = s.settings
  tally : s.tally.Within w.session.tally
  /-- Only a build that has succeeded has changed what is at hand. -/
  cache : w.session.cache = s.cache ∨ ∃ solid, w.phase = .built solid

theorem Untouched.step? {s : Session} (h : Untouched s w) (hstep : w.step? p = some w') :
    Untouched s w' := by
  have hcache : w.session.cache = s.cache := by
    -- a build that has succeeded takes no further step
    refine h.cache.resolve_right ?_
    rintro ⟨solid, hbuilt⟩
    rw [Workbench.step?, hbuilt] at hstep
    cases hstep
  rcases step?_cases hstep with ⟨events, phase, rfl⟩ | ⟨events, solid, pair, rfl⟩
  · exact ⟨h.settings, h.tally.trans (w.session.tally.within_recordAll events), .inl hcache⟩
  · exact ⟨h.settings, h.tally.trans (w.session.tally.within_recordAll events), .inr ⟨solid, rfl⟩⟩

/-- While a build goes on nothing happens to what is at hand, and no counter goes down. -/
theorem Reaches.untouched {s : Session} (h : Reaches p (start s) w) : Untouched s w := by
  induction h with
  | refl => exact ⟨rfl, .refl _, .inl rfl⟩
  | tail _ hstep ih => exact ih.step? hstep

/-! ## The end of a build -/

/-- What the rest of a build ends in. -/
def finish (w : Workbench) (rest : Run Solid) : Workbench where
  session := w.session.after rest
  journal := w.journal ++ rest.journal
  phase := .ofOutcome (rest.outcome.map Solid.mesh)

section Finish

variable {α : Type} {x : Run α} {f : α → Run Solid} (next : α → Phase)

theorem finish_bind_of_ok {a : α} (h : x.outcome = .ok a) :
    w.finish (x >>= f) = (w.follow x next).finish (f a) := by
  simp [finish, follow, enter, Session.after, Run.bind_of_ok h, Tally.recordAll]

theorem finish_bind_of_error {e : MeshError} (h : x.outcome = .error e) :
    w.finish (x >>= f) = w.follow x next := by
  simp [finish, follow, enter, Session.after, Run.bind_of_error h, h, Except.map, Phase.ofOutcome]

/-- A step does a piece of work, and further steps do the rest if it succeeds. -/
theorem reaches_bind (hstep : w.step? p = some (w.follow x next))
    (hrest : ∀ a, x.outcome = .ok a →
      Reaches p (w.follow x next) ((w.follow x next).finish (f a))) :
    Reaches p w (w.finish (x >>= f)) := by
  cases h : x.outcome with
  | ok a =>
    rw [finish_bind_of_ok next h]
    exact .head hstep (hrest a h)
  | error e =>
    rw [finish_bind_of_error next h]
    exact .single hstep

end Finish

/-- A build that has only to lay down its solid takes one more step. -/
theorem step?_pure {solid : Solid} (h : w.phase = .working solid []) :
    w.step? p = some (w.finish (pure solid)) := by
  rw [step?, h]
  cases hpair : solid.pair? with
  | none =>
    simp only [hpair]
    simp [finish, Session.after, enter, hpair, Except.map, Phase.ofOutcome]
  | some pair =>
    simp only [hpair]
    simp [finish, Session.after, enter, lay, hpair, Except.map, Phase.ofOutcome]

/-- The rest of the tokens is applied in as many steps, and one more lays down the solid. -/
theorem reaches_working {todo : List Token} {solid : Solid}
    (h : w.phase = .working solid todo) :
    Reaches p w (w.finish (solid.applyTokens w.session.settings todo.reverse)) := by
  induction todo generalizing w solid with
  | nil => exact .single (step?_pure h)
  | cons t todo ih =>
    rw [List.reverse_cons, Solid.applyTokens_append, Solid.applyTokens_singleton]
    refine reaches_bind (.working · todo) (by rw [step?, h]) fun solid' hsolid' => ?_
    exact ih (by simp [follow, enter, hsolid'])

theorem reaches_seeding (h : w.phase = .seeding) :
    Reaches p w (w.finish (p.buildFresh w.session.settings)) := by
  rw [Program.buildFresh_eq]
  refine reaches_bind (.working · p.operations.reverse) (by rw [step?, h]) fun solid hsolid => ?_
  have hphase : (w.follow (p.seed.build w.session.settings <* Run.note .seedBuilt)
      (.working · p.operations.reverse)).phase = .working solid p.operations.reverse := by
    simp [follow, enter, hsolid]
  have hrest := reaches_working (p := p) hphase
  rwa [List.reverse_reverse] at hrest

theorem finish_enter_nil (w : Workbench) (phase : Phase) (rest : Run Solid) :
    (w.enter [] phase).finish rest = w.finish rest := by
  simp [finish, enter, Session.after, Tally.recordAll]

/-- The solid at hand, seen from either side, is answered with in one step. -/
theorem step?_atHand {cache : DualPair} (hphase : w.phase = .asked)
    (hcache : w.session.cache = some cache)
    (hname : cache.solid.name = p.text ∨ cache.dual.name = p.text) :
    w.step? p = some (w.finish (p.build w.session.settings (some cache))) := by
  obtain ⟨⟨settings, _, tally⟩, journal, _⟩ := w
  obtain rfl : _ = some cache := hcache
  obtain rfl : _ = Phase.asked := hphase
  by_cases hsolid : cache.solid.name = p.text
  · simp only [step?, Program.build, if_pos hsolid]
    rfl
  · have hdual := hname.resolve_left hsolid
    simp only [step?, Program.build, if_neg hsolid, if_pos hdual]
    rfl

/-- A build in place reaches the end that the build of the session tells of. -/
theorem reaches_finish (h : w.phase = .asked) :
    Reaches p w (w.finish (p.build w.session.settings w.session.cache)) := by
  have fresh : w.step? p = some (w.enter [] .seeding) →
      Reaches p w (w.finish (p.buildFresh w.session.settings)) := by
    intro hstep
    have hrest := reaches_seeding (p := p) (w := w.enter [] .seeding) rfl
    rw [finish_enter_nil] at hrest
    exact .head hstep hrest
  cases hcache : w.session.cache with
  | none => exact fresh (by rw [step?, h, hcache])
  | some cache =>
    by_cases hname : cache.solid.name = p.text ∨ cache.dual.name = p.text
    · exact .single (step?_atHand h hcache hname)
    · obtain ⟨hsolid, hdual⟩ := not_or.1 hname
      simp only [Program.build, if_neg hsolid, if_neg hdual]
      cases hresume : p.resumePoint? cache with
      | none => exact fresh (by simp only [step?, h, hcache, if_neg hsolid, if_neg hdual, hresume])
      | some point =>
        obtain ⟨pair, pending⟩ := point
        refine reaches_bind (fun _ => .working (.ofPair pair) pending.reverse) ?_ ?_
        · simp only [step?, h, hcache, if_neg hsolid, if_neg hdual, hresume]
          rfl
        · intro _ _
          have hrest := reaches_working (p := p)
            (w := w.enter [.resumed pair.solid.name] (.working (.ofPair pair) pending.reverse)) rfl
          rwa [List.reverse_reverse] at hrest

/-- The session after a build, with the journal and the outcome of the run. -/
def ended (s : Session) (p : Program) : Workbench :=
  ⟨(s.build p).1, (s.build p).2.journal, .ofOutcome (s.build p).2.outcome⟩

theorem ended_eq (s : Session) (p : Program) :
    ended s p = (start s).finish (p.build s.settings s.cache) := by
  have houtcome := Run.outcome_map Solid.mesh (p.build s.settings s.cache)
  have hjournal := Run.journal_map Solid.mesh (p.build s.settings s.cache)
  simp only [ended, Session.build, houtcome, hjournal]
  rfl

/-- A build in place ends as the build of the session does, and in no other way. -/
theorem eval_start (s : Session) (p : Program) :
    StateTransition.eval (step? p) (start s) = Part.some (ended s p) := by
  refine Part.eq_some_iff.2 (StateTransition.mem_eval.2 ⟨?_, ?_⟩)
  · rw [ended_eq]
    exact reaches_finish rfl
  · rw [ended, step?]
    cases (s.build p).2.outcome <;> rfl

/-- A build that fails in the end has not changed what is at hand on the way. -/
theorem Reaches.cache_of_error {s : Session} {e : MeshError}
    (h : (s.build p).2.outcome = .error e) (hw : Reaches p (start s) w) :
    w.session.cache = s.cache := by
  refine hw.untouched.cache.resolve_right ?_
  -- had the build succeeded here, this would be its end, but the end is a failure
  rintro ⟨solid, hbuilt⟩
  have hhalted : w.step? p = none := by rw [step?, hbuilt]
  have hend : w ∈ StateTransition.eval (step? p) (start s) :=
    StateTransition.mem_eval.2 ⟨hw, hhalted⟩
  rw [eval_start, Part.mem_some_iff] at hend
  rw [hend, ended, h] at hbuilt
  cases hbuilt

end Workbench

end Polyhedra
