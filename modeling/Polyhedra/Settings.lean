/-!
# Settings

How many relaxation passes follow each construction. A seed that is brought to
canonical form, as the pyramid is, and the canonical form itself need at least one
pass; every other count may be zero.
-/

namespace Polyhedra

/-- The number of relaxation passes after each kind of construction. -/
structure Settings where
  kis : Nat := 3
  ambo : Nat := 2
  gyro : Nat := 3
  propellor : Nat := 3
  reflect : Nat := 1
  /-- Prisms and antiprisms. -/
  prism : Nat := 1
  pyramid : Nat := 3
  canonicalize : Nat := 10
  deriving DecidableEq, Inhabited

/-- The constructions that cannot do without a pass. -/
inductive Stage where
  | pyramid
  | canonicalize
  deriving DecidableEq

namespace Stage

def name : Stage → String
  | pyramid => "pyramid"
  | canonicalize => "canonicalize"

/-- The number of passes that the settings give to the stage. -/
def passes (s : Settings) : Stage → Nat
  | pyramid => s.pyramid
  | canonicalize => s.canonicalize

end Stage

/-- Settings are refused when a stage that needs a pass has none. -/
inductive SettingsError where
  | noPasses (stage : Stage)
  deriving DecidableEq

def SettingsError.message : SettingsError → String
  | noPasses stage => s!"{stage.name} iterations must be >= 1: 0"

namespace Settings

/-- Every stage that needs a pass has one. -/
def Valid (s : Settings) : Prop := ∀ stage : Stage, 0 < stage.passes s

/-- Refuses settings in which the pyramid stage or else the canonical stage has no pass. -/
def validate (s : Settings) : Except SettingsError Unit :=
  if s.pyramid = 0 then .error (.noPasses .pyramid)
  else if s.canonicalize = 0 then .error (.noPasses .canonicalize)
  else .ok ()

/-- The default settings with another number of passes for the canonical form. -/
def withCanonicalize (n : Nat) : Except SettingsError Settings :=
  if n = 0 then .error (.noPasses .canonicalize) else .ok { canonicalize := n }

theorem validate_eq_ok_iff {s : Settings} : s.validate = .ok () ↔ s.Valid := by
  constructor
  · intro h stage
    cases stage <;> simp only [Stage.passes, validate] at h ⊢ <;> split at h <;>
      first | omega | (split at h <;> first | omega | simp at h) | simp at h
  · intro h
    have hp := h .pyramid
    have hc := h .canonicalize
    simp only [Stage.passes] at hp hc
    simp [validate, Nat.ne_of_gt hp, Nat.ne_of_gt hc]

end Settings

end Polyhedra
