import Polyhedra.Notation.Error

/-!
# Diagnostics

A diagnostic is a message about a notation, with a place, perhaps a hint, and a
way to mark the place under the notation with carets.
-/

namespace Polyhedra

inductive Severity where
  | error
  | warning
  deriving DecidableEq

/-- A message about a piece of a notation. An empty span stands for all of it. -/
structure Diagnostic where
  severity : Severity
  message : String
  span : Span
  hint : Option String
  deriving DecidableEq

namespace Diagnostic

/-- The message, followed by the hint in parentheses. -/
def render (d : Diagnostic) : String :=
  match d.hint with
  | none => d.message
  | some hint => s!"{d.message} ({hint})"

/--
The number of characters before the marked place and the number of characters
marked. At least one caret is shown; a place that does not lie on character
boundaries of the text is shown at its beginning.
-/
def marks (d : Diagnostic) (text : Text) : Nat × Nat :=
  if d.span.isEmpty then (0, text.length)
  else
    (((text.takeBytes? d.span.start).getD []).length, max 1 (d.span.slice text).length)

/-- The text with a second line that marks the place with carets. -/
def underline (d : Diagnostic) (text : Text) : Text :=
  match d.marks text with
  | (indent, carets) =>
    text ++ '\n' :: (List.replicate indent ' ' ++ List.replicate carets '^')

/-- The diagnostic that reports a fault of a notation. -/
def ofError (e : NotationError) : Diagnostic where
  severity := .error
  message := e.message
  span := e.span?.getD ⟨0, 0⟩
  hint :=
    match e with
    | .empty | .illFormed _ =>
      some "expected operators followed by one seed, e.g. kaC or tP5"
    | .tooFewSides .. => some "prisms, antiprisms and pyramids need at least 3 sides"
    | _ => none

end Diagnostic

end Polyhedra
