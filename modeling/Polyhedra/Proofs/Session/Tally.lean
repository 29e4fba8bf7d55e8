import Mathlib.Algebra.Group.Defs
import Polyhedra.Proofs.Session.Description

/-!
# What counts

Most events are not counted.  What happens inside a seed or an operation never
is, so that a program that is built from a seed, or on top of a solid at hand,
is counted by where it starts and by its tokens alone: one exchange for each
dual, and one operation for each other token.

A fault ends a run early.  Then the tokens that were applied before count, and the
one that failed does not (`Solid.exists_applied`).

## Main results

* `Tally.recordAll_eq_add` — a journal adds its own counts, whatever was counted before.
* `Solid.exists_applied` — the tokens that are applied are counted by what they are.
* `Program.tally_buildFresh`, `Program.tally_buildOn` — the counts of a build.
-/

namespace Polyhedra

/-! ## Counts -/

namespace Tally

/-- Counts of one piece of work after another. -/
protected def add (t u : Tally) : Tally where
  seedsBuilt := t.seedsBuilt + u.seedsBuilt
  operatorsApplied := t.operatorsApplied + u.operatorsApplied
  cacheHits := t.cacheHits + u.cacheHits
  dualSwaps := t.dualSwaps + u.dualSwaps
  resumed := t.resumed + u.resumed

instance : Zero Tally := ⟨{}⟩

instance : Add Tally := ⟨Tally.add⟩

instance : AddMonoid Tally where
  add_assoc t u v := by
    show Tally.add (Tally.add t u) v = Tally.add t (Tally.add u v)
    simp [Tally.add, Nat.add_assoc]
  zero_add t := by
    show Tally.add {} t = t
    simp [Tally.add]
  add_zero t := rfl
  nsmul := nsmulRec

section Fields

variable (t u : Tally)

@[simp] theorem seedsBuilt_add : (t + u).seedsBuilt = t.seedsBuilt + u.seedsBuilt := rfl

@[simp]
theorem operatorsApplied_add :
    (t + u).operatorsApplied = t.operatorsApplied + u.operatorsApplied := rfl

@[simp] theorem cacheHits_add : (t + u).cacheHits = t.cacheHits + u.cacheHits := rfl

@[simp] theorem dualSwaps_add : (t + u).dualSwaps = t.dualSwaps + u.dualSwaps := rfl

@[simp] theorem resumed_add : (t + u).resumed = t.resumed + u.resumed := rfl

end Fields

/-- The counts of the events of a journal. -/
def ofJournal (journal : List Event) : Tally := ({} : Tally).recordAll journal

theorem record_eq_add (t : Tally) (e : Event) : t.record e = t + ({} : Tally).record e := by
  cases e <;> rfl

/-- A journal adds its own counts, whatever was counted before. -/
theorem recordAll_eq_add (t : Tally) (journal : List Event) :
    t.recordAll journal = t + ofJournal journal := by
  induction journal generalizing t with
  | nil => rfl
  | cons e journal ih =>
    have hrest := ih (t.record e)
    have halone := ih (({} : Tally).record e)
    show (t.record e).recordAll journal = t + (({} : Tally).record e).recordAll journal
    rw [hrest, halone, record_eq_add, add_assoc]

theorem ofJournal_append (journal more : List Event) :
    ofJournal (journal ++ more) = ofJournal journal + ofJournal more := by
  rw [← recordAll_eq_add]
  exact List.foldl_append

end Tally

/-! ## Counts of runs -/

namespace Run

variable {α β : Type}

/-- The counts of the journal. -/
def tally (x : Run α) : Tally := Tally.ofJournal x.journal

/-- Nothing in the journal is counted. -/
def Uncounted (x : Run α) : Prop := x.tally = 0

theorem tally_bind_of_ok {x : Run α} {a : α} (h : x.outcome = .ok a) (f : α → Run β) :
    (x >>= f).tally = x.tally + (f a).tally := by
  rw [bind_of_ok h]
  exact Tally.ofJournal_append _ _

theorem tally_note_bind (e : Event) (f : Unit → Run α) :
    (note e >>= f).tally = ({} : Tally).record e + (f ()).tally :=
  tally_bind_of_ok (outcome_note e) f

theorem Uncounted.bind {x : Run α} {f : α → Run β} (hx : x.Uncounted)
    (hf : ∀ a, (f a).Uncounted) : (x >>= f).Uncounted := by
  cases h : x.outcome with
  | ok a =>
    show (x >>= f).tally = 0
    rw [tally_bind_of_ok h, hx, hf a, add_zero]
  | error e =>
    rw [bind_of_error h]
    exact hx

theorem Uncounted.map {x : Run α} (hx : x.Uncounted) (f : α → β) : (f <$> x).Uncounted := by
  rw [← bind_pure_comp]
  exact hx.bind fun _ => rfl

/-- Warnings are not counted. -/
theorem uncounted_warn (warnings : List Warning) : (warn warnings).Uncounted := by
  induction warnings with
  | nil => rfl
  | cons w warnings ih => exact ih

end Run

/-! ## Constructions -/

theorem Relaxation.uncounted_relax (rule : Relaxation) (count : Nat) (m : Mesh) :
    (rule.relax count m).Uncounted := by
  unfold relax
  refine .bind rfl fun _ => .bind rfl fun dual => .bind rfl fun _ => .bind rfl fun pair => ?_
  exact .bind (Run.uncounted_warn _) fun _ => rfl

theorem Seed.uncounted_build (settings : Settings) (seed : Seed) :
    (seed.build settings).Uncounted := by
  unfold build
  refine .bind rfl fun _ => ?_
  cases seed with
  | prism n => exact (Relaxation.uncounted_relax _ _ _).map _
  | antiprism n => exact (Relaxation.uncounted_relax _ _ _).map _
  | pyramid n => exact (Relaxation.uncounted_relax _ _ _).map _
  | _ => rfl

namespace Mesh

variable (m : Mesh)

theorem uncounted_kis (sides : Option Nat) : (m.kis sides).Uncounted := by
  unfold kis
  refine .bind rfl fun _ => .bind rfl fun _ => ?_
  split
  · exact .bind (Run.uncounted_warn _) fun _ => rfl
  · rfl

theorem uncounted_ambo : m.ambo.Uncounted := by
  unfold ambo
  refine .bind rfl fun _ => ?_
  cases m.danglingUpwards? <;> rfl

theorem uncounted_gyro : m.gyro.Uncounted := by
  unfold gyro
  refine .bind rfl fun _ => .bind (Run.uncounted_warn _) fun _ => .bind rfl fun _ => ?_
  exact .bind (Run.uncounted_warn _) fun _ => rfl

theorem uncounted_propellor : m.propellor.Uncounted := by
  unfold propellor
  exact .bind rfl fun _ => .bind (Run.uncounted_warn _) fun _ => .bind rfl fun _ => rfl

end Mesh

theorem Operation.uncounted_apply (settings : Settings) (op : Operation) (m : Mesh) :
    (op.apply settings m).Uncounted := by
  have relaxed : ∀ {x : Run Mesh} {rule : Relaxation} {count : Nat}, x.Uncounted →
      (x >>= fun m => rule.relax count m).Uncounted :=
    fun hx => hx.bind fun _ => Relaxation.uncounted_relax _ _ _
  cases op with
  | kis sides => exact relaxed (m.uncounted_kis sides)
  | ambo => exact relaxed m.uncounted_ambo
  | gyro => exact relaxed m.uncounted_gyro
  | propellor => exact relaxed m.uncounted_propellor
  | reflect => exact relaxed (x := m.reflect) rfl
  | canonicalize => exact Relaxation.uncounted_relax _ _ _
  | dual => rfl

/-! ## Programs -/

/-- The token takes the dual. -/
def Token.isDual (t : Token) : Bool := t.operation == .dual

namespace Tally

/-- One exchange for each dual, and one operation for each other token. -/
def ofTokens (ts : List Token) : Tally where
  operatorsApplied := ts.countP fun t => !t.isDual
  dualSwaps := ts.countP Token.isDual

section OfTokens

variable (ts : List Token)

@[simp] theorem seedsBuilt_ofTokens : (ofTokens ts).seedsBuilt = 0 := rfl

@[simp] theorem cacheHits_ofTokens : (ofTokens ts).cacheHits = 0 := rfl

@[simp] theorem resumed_ofTokens : (ofTokens ts).resumed = 0 := rfl

@[simp]
theorem operatorsApplied_ofTokens :
    (ofTokens ts).operatorsApplied = ts.countP fun t => !t.isDual := rfl

@[simp] theorem dualSwaps_ofTokens : (ofTokens ts).dualSwaps = ts.countP Token.isDual := rfl

end OfTokens

/-- Tokens of one operation other than the dual count as so many operations. -/
theorem ofTokens_replicate {ts : List Token} {k : Nat} {op : Operation} (hop : op ≠ .dual)
    (h : ts.map Token.operation = List.replicate k op) :
    ofTokens ts = { operatorsApplied := k } := by
  have hall : ∀ t ∈ ts, t.isDual = false := by
    intro t ht
    have hoperation : t.operation = op := List.eq_of_mem_replicate (h ▸ List.mem_map_of_mem ht)
    rw [Token.isDual, hoperation]
    exact beq_eq_false_iff_ne.2 hop
  have hlength : ts.length = k := by simpa using congrArg List.length h
  have hoperators : ts.countP (fun t => !t.isDual) = k := by
    rw [← hlength, List.countP_eq_length]
    exact fun t ht => by rw [hall t ht]; rfl
  have hduals : ts.countP Token.isDual = 0 :=
    List.countP_eq_zero.2 fun t ht => by rw [hall t ht]; exact Bool.false_ne_true
  rw [ofTokens, hoperators, hduals]

end Tally

namespace Solid

variable {settings : Settings} {s s' : Solid}

theorem tally_exchange (h : s.exchange.outcome = .ok s') :
    s.exchange.tally = { dualSwaps := 1 } := by
  obtain ⟨d, hd, -⟩ := exchange_eq_ok h
  unfold exchange
  rw [hd]
  rfl

/-- A token that is applied is counted by what it is. -/
theorem tally_step {t : Token} (h : (s.step settings t.operation).outcome = .ok s') :
    (s.step settings t.operation).tally = Tally.ofTokens [t] := by
  obtain ⟨op, span⟩ := t
  by_cases hop : op = .dual
  · subst hop
    exact tally_exchange h
  · obtain ⟨p, hp, -⟩ := step_eq_ok hop h
    have hcount : Tally.ofTokens [⟨op, span⟩] = { operatorsApplied := 1 } := by
      simp [Tally.ofTokens, Token.isDual, hop]
    rw [hcount]
    cases op with
    | dual => exact absurd rfl hop
    | _ =>
      unfold step
      rw [Run.tally_bind_of_ok hp, Operation.uncounted_apply, zero_add]
      rfl

/-- An operation that fails is not counted. -/
theorem uncounted_step_of_error {op : Operation} {e : MeshError}
    (h : (s.step settings op).outcome = .error e) : (s.step settings op).Uncounted := by
  by_cases hop : op = .dual
  · subst hop
    cases hdual : s.dual with
    | none =>
      show s.exchange.Uncounted
      unfold exchange
      rw [hdual]
      rfl
    | some d => exact nomatch h.symm.trans (outcome_exchange hdual)
  · have hp := h
    rw [outcome_step hop, Except.map_eq_error] at hp
    have happly := Operation.uncounted_apply settings op s.mesh
    cases op with
    | dual => exact absurd rfl hop
    | _ =>
      unfold step
      show (_ >>= _ : Run Solid).tally = 0
      rw [Run.bind_of_error hp]
      exact happly

/--
Tokens are applied one after another, from the last one on, and counted by what they
are: all of them, or those behind one that fails.
-/
theorem exists_applied (settings : Settings) (s : Solid) (ts : List Token) :
    ∃ applied, (s.applyTokens settings ts).tally = Tally.ofTokens applied ∧
      ((∃ s', (s.applyTokens settings ts).outcome = .ok s') ∧ applied = ts ∨
        ∃ t s' e, (s.applyTokens settings ts).outcome = .error e ∧ t :: applied <:+ ts ∧
          (s.applyTokens settings applied).outcome = .ok s' ∧
          (s'.step settings t.operation).outcome = .error e) := by
  induction ts with
  | nil => exact ⟨[], rfl, .inl ⟨⟨s, rfl⟩, rfl⟩⟩
  | cons t ts ih =>
    obtain ⟨applied, htally, ⟨⟨before, hbefore⟩, rfl⟩ | ⟨t', s', e, he, hsuffix, hrest⟩⟩ := ih
    · rw [applyTokens, Run.tally_bind_of_ok hbefore, htally, Run.outcome_bind, hbefore]
      cases hstep : (before.step settings t.operation).outcome with
      | ok s' =>
        refine ⟨t :: applied, ?_, .inl ⟨⟨s', hstep⟩, rfl⟩⟩
        rw [tally_step hstep]
        show Tally.add _ _ = _
        simp [Tally.add, Tally.ofTokens, List.countP_cons]
      | error e =>
        refine ⟨applied, ?_, .inr ⟨t, before, e, hstep, List.suffix_rfl, hbefore, hstep⟩⟩
        rw [uncounted_step_of_error hstep, add_zero]
    · rw [applyTokens, Run.bind_of_error he]
      exact ⟨applied, htally, .inr ⟨t', s', e, rfl, hsuffix.trans (List.suffix_cons t ts), hrest⟩⟩

end Solid

namespace Program

variable {settings : Settings} {p : Program}

/-- A build from the seed is counted as such, and by the tokens that are applied. -/
theorem tally_buildFresh {seed : Solid} (hseed : (p.seed.build settings).outcome = .ok seed) :
    (p.buildFresh settings).tally =
      { seedsBuilt := 1 } + (seed.applyTokens settings p.operations).tally := by
  unfold buildFresh
  rw [Run.tally_bind_of_ok hseed, p.seed.uncounted_build, zero_add, Run.tally_note_bind]
  rfl

/-- A build on top of what is at hand is counted as such, and by the tokens that are applied. -/
theorem tally_buildOn (pair : DualPair) (pending : List Token) :
    (buildOn settings pair pending).tally =
      { resumed := 1 } + ((Solid.ofPair pair).applyTokens settings pending).tally :=
  Run.tally_note_bind _ _

end Program

end Polyhedra
