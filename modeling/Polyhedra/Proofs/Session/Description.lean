import Polyhedra.Proofs.Construction.Outcome
import Polyhedra.Proofs.Notation.Reading
import Polyhedra.Session

/-!
# What a program describes

A program stands for its operations and its seed.  Where its tokens stand does not
matter: building from the seed is the construction of these
(`Program.buildFresh_eq_construct`), and `describe` is what comes of it, without a
journal.

What is built is named after the operations and the seed, and its dual after the
rule that duality undoes itself, as long as no dual stands in front of another
one (`named_of_describe`).

## Main results

* `construct_append`, `describe_append` — operations are applied in two goes.
* `named_of_describe` — a solid is named after what it was built by.
-/

namespace Polyhedra

/-! ## Descriptions -/

namespace Solid

/-- Applies operations in written order: the last one first. -/
def perform (settings : Settings) : List Operation → Solid → Run Solid
  | [], s => pure s
  | op :: ops, s => do step settings op (← perform settings ops s)

/-- What comes of the operations, the last one first. -/
def applied (settings : Settings) : List Operation → Solid → Except MeshError Solid
  | [], s => .ok s
  | op :: ops, s => (applied settings ops s).bind fun s => (s.step settings op).outcome

variable {settings : Settings}

theorem outcome_perform (ops : List Operation) (s : Solid) :
    (s.perform settings ops).outcome = s.applied settings ops := by
  induction ops with
  | nil => rfl
  | cons op ops ih =>
    rw [perform, Run.outcome_bind, ih]
    rfl

/-- Operations are applied in two goes, the last ones first. -/
theorem perform_append (ops more : List Operation) (s : Solid) :
    s.perform settings (ops ++ more) =
      s.perform settings more >>= fun s => s.perform settings ops := by
  induction ops with
  | nil => exact (bind_pure _).symm
  | cons op ops ih =>
    rw [List.cons_append, perform, ih, bind_assoc]
    rfl

/-- Where the tokens stand does not matter. -/
theorem applyTokens_eq_perform (ts : List Token) (s : Solid) :
    s.applyTokens settings ts = s.perform settings (ts.map Token.operation) := by
  induction ts with
  | nil => rfl
  | cons t ts ih =>
    rw [applyTokens, ih]
    rfl

theorem outcome_applyTokens (ts : List Token) (s : Solid) :
    (s.applyTokens settings ts).outcome = s.applied settings (ts.map Token.operation) := by
  rw [applyTokens_eq_perform, outcome_perform]

end Solid

/-- Builds the seed and applies the operations. -/
def construct (settings : Settings) (ops : List Operation) (seed : Seed) : Run Solid := do
  let solid ← seed.build settings
  Run.note .seedBuilt
  solid.perform settings ops

/-- What comes of the seed by the operations. -/
def describe (settings : Settings) (ops : List Operation) (seed : Seed) : Except MeshError Solid :=
  (seed.build settings).outcome.bind (Solid.applied settings ops)

section Describe

variable {settings : Settings} {ops : List Operation} {seed : Seed}

theorem outcome_construct :
    (construct settings ops seed).outcome = describe settings ops seed := by
  unfold construct describe
  rw [Run.outcome_bind]
  congr 1
  funext s
  rw [Run.outcome_note_bind, Solid.outcome_perform]

theorem construct_append (more : List Operation) :
    construct settings (ops ++ more) seed =
      construct settings more seed >>= fun s => s.perform settings ops := by
  simp only [construct, Solid.perform_append, bind_assoc]

theorem describe_append (more : List Operation) :
    describe settings (ops ++ more) seed =
      (describe settings more seed).bind (Solid.applied settings ops) := by
  rw [← outcome_construct, construct_append, Run.outcome_bind, outcome_construct]
  simp only [Solid.outcome_perform]

theorem describe_cons (op : Operation) :
    describe settings (op :: ops) seed =
      (describe settings ops seed).bind fun s => (s.step settings op).outcome := by
  unfold describe
  cases (seed.build settings).outcome <;> rfl

theorem Program.buildFresh_eq_construct (p : Program) :
    p.buildFresh settings = construct settings (p.operations.map Token.operation) p.seed := by
  simp only [buildFresh, construct, Solid.applyTokens_eq_perform]

theorem Program.outcome_buildFresh (p : Program) :
    (p.buildFresh settings).outcome =
      describe settings (p.operations.map Token.operation) p.seed := by
  rw [buildFresh_eq_construct, outcome_construct]

end Describe

/-! ## Names -/

/-- The solid has the name, and its dual the name of a dual. -/
structure Solid.Named (s : Solid) (name : Text) : Prop where
  mesh : s.mesh.name = name
  dual : ∀ d, s.dual = some d → d.name = dualName name

theorem Relaxation.named {rule : Relaxation} {count : Nat} {m : Mesh} {p : DualPair}
    (h : (rule.relax count m).outcome = .ok p) : (Solid.ofPair p).Named m.name := by
  obtain ⟨dual, hdual, hsolid, hdual'⟩ := exists_dual h
  refine ⟨hsolid.name, fun d hd => ?_⟩
  obtain rfl := Option.some.inj hd
  rw [hdual'.name, (Mesh.dual_eq_ok hdual).1]

variable {settings : Settings}

/-- A seed is named after its notation. -/
theorem Seed.named_of_build {seed : Seed} {s : Solid}
    (h : (seed.build settings).outcome = .ok s) : s.Named seed.text := by
  rw [← name_mesh]
  rcases build_eq_ok h with hs | ⟨rule, count, p, hp, hs⟩
  · rw [hs]
    exact ⟨rfl, fun d hd => by simp at hd⟩
  · rw [hs]
    exact Relaxation.named hp

namespace Operation

/-- An operation puts its own notation in front of the name. -/
theorem named_of_apply {op : Operation} {m : Mesh} {p : DualPair}
    (h : (op.apply settings m).outcome = .ok p) :
    (Solid.ofPair p).Named (op.text ++ m.name) := by
  rw [outcome_apply] at h
  obtain ⟨m', hm', h⟩ := Except.bind_eq_ok.1 h
  exact name_of_transform hm' ▸ Relaxation.named h

end Operation

namespace Solid

variable {s s' : Solid}

theorem exchange_eq_ok (h : s.exchange.outcome = .ok s') :
    ∃ d, s.dual = some d ∧ s' = ⟨d, some s.mesh⟩ := by
  unfold exchange at h
  split at h
  · simp at h
  · next d hd =>
    rw [Run.outcome_note_bind] at h
    exact ⟨d, hd, (Except.ok.inj h).symm⟩

theorem outcome_exchange {d : Mesh} (h : s.dual = some d) :
    s.exchange.outcome = .ok ⟨d, some s.mesh⟩ := by
  unfold exchange
  rw [h]
  rfl

/-- Any operation but the dual makes a new solid, with its dual. -/
theorem outcome_step {op : Operation} (hop : op ≠ .dual) :
    (s.step settings op).outcome = (op.apply settings s.mesh).outcome.map ofPair := by
  cases op with
  | dual => exact absurd rfl hop
  | _ =>
    unfold step
    simp only [Run.outcome_bind]
    cases (Operation.apply settings _ s.mesh).outcome <;> rfl

theorem step_eq_ok {op : Operation} (hop : op ≠ .dual)
    (h : (s.step settings op).outcome = .ok s') :
    ∃ p, (op.apply settings s.mesh).outcome = .ok p ∧ s' = ofPair p := by
  rw [outcome_step hop] at h
  obtain ⟨p, hp, rfl⟩ := Except.map_eq_ok.1 h
  exact ⟨p, hp, rfl⟩

end Solid

theorem spelling_dual_cons (ops : List Operation) (seed : Seed) :
    spelling (.dual :: ops) seed = 'd' :: spelling ops seed :=
  spelling_cons _ _ _

/-- A name does not begin with a dual, unless the operations do. -/
theorem head?_spelling_ne {ops : List Operation} (h : ops.head? ≠ some .dual) (seed : Seed) :
    (spelling ops seed).head? ≠ some 'd' := by
  rw [head?_spelling]
  cases ops with
  | nil => cases seed <;> simp [Seed.symbol]
  | cons op ops => cases op <;> simp_all [Operation.symbol]

theorem DualsApart.head?_ne {ops : List Operation} {seed : Seed}
    (h : DualsApart (.dual :: ops) seed) : (spelling ops seed).head? ≠ some 'd' :=
  h.1 rfl 'd' (by simp)

/-- What is built is named after what it was built by. -/
theorem named_of_describe {ops : List Operation} {seed : Seed} {s : Solid}
    (happart : DualsApart ops seed) (h : describe settings ops seed = .ok s) :
    s.Named (spelling ops seed) := by
  induction ops generalizing s with
  | nil =>
    obtain ⟨s', hs', h⟩ := Except.bind_eq_ok.1 h
    obtain rfl := Except.ok.inj h
    exact Seed.named_of_build hs'
  | cons op ops ih =>
    rw [describe_cons] at h
    obtain ⟨before, hbefore, h⟩ := Except.bind_eq_ok.1 h
    have hnamed := ih happart.2 hbefore
    by_cases hop : op = .dual
    · subst hop
      obtain ⟨d, hd, rfl⟩ := Solid.exchange_eq_ok h
      refine ⟨?_, fun e he => ?_⟩
      · rw [hnamed.dual d hd, spelling_dual_cons]
        exact dualName_of_head? happart.head?_ne
      · obtain rfl := Option.some.inj he
        rw [hnamed.mesh, spelling_dual_cons]
        rfl
    · obtain ⟨p, hp, rfl⟩ := Solid.step_eq_ok hop h
      rw [spelling_cons, ← hnamed.mesh]
      exact Operation.named_of_apply hp

end Polyhedra
