import Polyhedra.Geometry.Point
import Polyhedra.Mesh.Error
import Polyhedra.Notation.Diagnostic
import Polyhedra.Notation.Program

/-!
# Runs

A construction ends in a value or in a fault, and either way it leaves behind a
journal of what happened. `Run` pairs the outcome with the journal, so that
what was noted before a fault is not lost.

Events are facts, not text. `Event.line?` says which of them are written down in
a log, and how; the warnings among them are addressed to the user.
-/

namespace Polyhedra

/-! ## Events -/

/-- Something a user should know about a solid that could be built all the same. -/
inductive Warning where
  /-- A vector without a direction was to be brought to length one. -/
  | zeroLength
  /-- No face has the number of sides that a kis selector asks for. -/
  | noMatchingFace (sides : Nat)
  /-- The notation itself looks odd. -/
  | advice (diagnostic : Diagnostic)
  deriving DecidableEq

namespace Warning

def message : Warning → String
  | zeroLength => "Normalizing a zero-length vector, probable bug"
  | noMatchingFace sides => s!"No {sides}-fold components were found"
  | advice diagnostic => diagnostic.render

/-- One warning for each vector that has no direction. -/
def forDirections (vectors : List Point) : List Warning :=
  (vectors.filter fun v => v.unit?.isNone).map fun _ => zeroLength

end Warning

/-- The two ways to move the vertices of a solid against those of its dual. -/
inductive Relaxation where
  /-- Vertices go to the poles of the centroids: faces become flat. -/
  | planar
  /-- Vertices go to the poles of the face planes: edges come to touch the unit sphere. -/
  | canonical
  deriving DecidableEq

/-- A step of a construction. -/
inductive Event where
  | warned (warning : Warning)
  /-- A notation was accepted; the trace shows it with its canonical form. -/
  | accepted (trace : Text)
  | seedStarted (seed : Seed)
  | seedBuilt
  /-- An operation other than taking the dual begins on the solid with this name. -/
  | operatorStarted (operation : Operation) (name : Text)
  | operatorApplied
  | dualTaken (name : Text)
  | relaxed (rule : Relaxation) (name : Text)
  /-- The solid with this name was exchanged with its dual. -/
  | swapped (name : Text)
  /-- What was asked for was at hand. -/
  | cacheHit
  /-- The solid with this name, which was at hand, is taken as the start. -/
  | resumed (name : Text)
  deriving DecidableEq

namespace Event

/-- How the beginning of an operation is written down. -/
def operatorLine? (name : String) : Operation → Option String
  | .kis none | .kis (some 0) => some s!"Taking kis of {name}"
  | .kis (some n) => some s!"Taking kis of {n}-sided faces of {name}"
  | .ambo => some s!"Taking ambo of {name}"
  | .gyro => some s!"Taking gyro of {name}"
  | .propellor => some s!"Taking propellor of {name}"
  | .reflect => some s!"Taking reflection of {name}"
  | .dual | .canonicalize => none

/-- The line of the log, if the event is written down: its severity and its text. -/
def line? : Event → Option (String × String)
  | warned w => some ("WARN", w.message)
  | accepted trace => some ("DEBUG", String.ofList trace)
  | seedStarted seed => some ("DEBUG", s!"Constructing seed {String.ofList seed.text}")
  | operatorStarted op name => (operatorLine? (String.ofList name) op).map ("DEBUG", ·)
  | dualTaken name => some ("DEBUG", s!"Taking dual of {String.ofList name}")
  | relaxed .planar name => some ("DEBUG", s!"Planarizing {String.ofList name}")
  | relaxed .canonical name => some ("DEBUG", s!"Canonicalizing {String.ofList name}")
  | swapped name => some ("DEBUG", s!"Swapping {String.ofList name} with its dual")
  | resumed name => some ("DEBUG", s!"Extending {String.ofList name}")
  | seedBuilt | operatorApplied | cacheHit => none

/-- The warning, if the event is one. -/
def warning? : Event → Option Warning
  | warned w => some w
  | _ => none

end Event

/-! ## Runs -/

/-- The outcome of a construction, with the journal of its events. -/
structure Run (α : Type) where
  journal : List Event
  outcome : Except MeshError α

namespace Run

protected def pure {α : Type} (a : α) : Run α := ⟨[], .ok a⟩

/-- Runs one construction after another; a fault of the first one ends the run. -/
protected def bind {α β : Type} (x : Run α) (f : α → Run β) : Run β :=
  match x.outcome with
  | .ok a =>
    let y := f a
    ⟨x.journal ++ y.journal, y.outcome⟩
  | .error e => ⟨x.journal, .error e⟩

instance : Monad Run where
  pure := Run.pure
  bind := Run.bind

/-- Enters an event into the journal. -/
def note (e : Event) : Run Unit := ⟨[e], .ok ()⟩

/-- Enters warnings into the journal. -/
def warn (warnings : List Warning) : Run Unit := ⟨warnings.map .warned, .ok ()⟩

/-- A computation that leaves nothing in the journal. -/
def ofExcept {α : Type} (x : Except MeshError α) : Run α := ⟨[], x⟩

def fail {α : Type} (e : MeshError) : Run α := ofExcept (.error e)

/-- The warnings of the run, in order. -/
def warnings {α : Type} (x : Run α) : List Warning := x.journal.filterMap Event.warning?

/-! ## Laws -/

instance : LawfulMonad Run := LawfulMonad.mk' Run
  (by
    intro α x
    obtain ⟨journal, outcome⟩ := x
    cases outcome <;> simp [Functor.map, Run.bind, Run.pure])
  (by
    intro α β x f
    simp [Bind.bind, Pure.pure, Run.bind, Run.pure])
  (by
    intro α β γ x f g
    obtain ⟨journal, outcome⟩ := x
    cases outcome with
    | error e => simp [Bind.bind, Run.bind]
    | ok a =>
      simp only [Bind.bind, Run.bind]
      cases (f a).outcome <;> simp [List.append_assoc])

@[simp] theorem journal_pure {α : Type} (a : α) : (pure a : Run α).journal = [] := rfl

@[simp] theorem outcome_pure {α : Type} (a : α) : (pure a : Run α).outcome = .ok a := rfl

theorem bind_of_ok {α β : Type} {x : Run α} {a : α} (h : x.outcome = .ok a) (f : α → Run β) :
    x >>= f = ⟨x.journal ++ (f a).journal, (f a).outcome⟩ := by
  show Run.bind x f = _
  simp [Run.bind, h]

theorem bind_of_error {α β : Type} {x : Run α} {e : MeshError} (h : x.outcome = .error e)
    (f : α → Run β) : x >>= f = ⟨x.journal, .error e⟩ := by
  show Run.bind x f = _
  simp [Run.bind, h]

theorem journal_map {α β : Type} (f : α → β) (x : Run α) : (f <$> x).journal = x.journal := by
  rw [← bind_pure_comp]
  cases h : x.outcome with
  | ok a => rw [bind_of_ok h, journal_pure, List.append_nil]
  | error e => rw [bind_of_error h]

/-! ## Warnings -/

@[simp] theorem warnings_note (e : Event) : (note e).warnings = e.warning?.toList := by
  cases h : e.warning? <;> simp [warnings, note, h]

@[simp] theorem warnings_warn (ws : List Warning) : (warn ws).warnings = ws := by
  induction ws with
  | nil => rfl
  | cons w ws ih => exact congrArg (w :: ·) ih

@[simp] theorem warnings_ofExcept {α : Type} (x : Except MeshError α) :
    (ofExcept x).warnings = [] := rfl

/-- What follows a run that succeeds adds its warnings. -/
theorem warnings_bind_of_ok {α β : Type} {x : Run α} {a : α} (h : x.outcome = .ok a)
    (f : α → Run β) : (x >>= f).warnings = x.warnings ++ (f a).warnings := by
  rw [bind_of_ok h]
  exact List.filterMap_append

@[simp] theorem warnings_map {α β : Type} (f : α → β) (x : Run α) :
    (f <$> x).warnings = x.warnings := by
  rw [warnings, journal_map, warnings]

end Run

end Polyhedra
