import Polyhedra.Notation.Grammar
import Polyhedra.Notation.Program
import Polyhedra.Notation.Reduction

/-!
# Compiled notations

From what a user writes to a program: the notation is validated as written, so
that faults point into the user's own text, then brought into canonical form,
and then read as a program.
-/

namespace Polyhedra

/-- A program together with the reduction that led to its notation. -/
structure Compiled where
  reduction : Reduction
  program : Program
  deriving DecidableEq

/-- Reads a notation as written by a user. -/
def Text.compile (input : Text) : Except NotationError Compiled :=
  match input.validate with
  | .error e => .error e
  | .ok () =>
    let reduction := input.reduce
    (Program.parse reduction.output).map fun program => ⟨reduction, program⟩

namespace Compiled

/-- The canonical notation. -/
def text (c : Compiled) : Text := c.reduction.output

def trace (c : Compiled) : Text := c.reduction.trace

/-- Advice about the program, each piece with its place marked under the canonical notation. -/
def renderedAdvice (c : Compiled) : List (Diagnostic × Text) :=
  c.program.advice.map fun d => (d, d.underline c.text)

end Compiled

end Polyhedra
