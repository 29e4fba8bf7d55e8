import Polyhedra.Notation.Rule

/-!
# Reduction to canonical form

A pass tries every rule of the table once, in order, each on the outcome of the
one before. Passes are repeated until one leaves the text as it found it, or
`maxPasses` have been made. The rules that changed the text are recorded in the
order in which they fired.
-/

namespace Polyhedra

/-- The most passes over the rule table. -/
def maxPasses : Nat := 64

/-- Tries the rules in order; yields the final text and the rules that changed it. -/
def Rule.applyInTurn : List Rule → Text → Text × List Rule
  | [], t => (t, [])
  | r :: rules, t =>
    let u := r.apply t
    match applyInTurn rules u with
    | (v, fired) => (v, if u = t then fired else r :: fired)

/-- A text, its canonical form, and the rules that led from one to the other. -/
structure Reduction where
  input : Text
  output : Text
  applied : List Rule
  deriving DecidableEq

namespace Text

/-- Passes over the rule table until one changes nothing, but at most the given number. -/
def reduceWithin : Nat → Text → Text × List Rule
  | 0, t => (t, [])
  | n + 1, t =>
    match Rule.applyInTurn Rule.table t with
    | (u, fired) =>
      if u = t then (u, fired)
      else
        match reduceWithin n u with
        | (v, more) => (v, fired ++ more)

/-- Brings a text into canonical form. -/
def reduce (t : Text) : Reduction :=
  match reduceWithin maxPasses t with
  | (output, applied) => ⟨t, output, applied⟩

/-- No rule of the table changes the text. -/
def IsCanonical (t : Text) : Prop := ∀ r ∈ Rule.table, r.apply t = t

instance (t : Text) : Decidable t.IsCanonical :=
  inferInstanceAs (Decidable (∀ r ∈ Rule.table, r.apply t = t))

end Text

namespace Reduction

/-- No rule changed the text. -/
def isUnchanged (r : Reduction) : Bool := r.applied.isEmpty

/-- A line that says what was asked for and what is built. -/
def trace (r : Reduction) : Text := r.input ++ " executed as ".toList ++ r.output

end Reduction

end Polyhedra
