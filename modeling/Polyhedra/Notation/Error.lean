import Polyhedra.Notation.Span

/-!
# Faults of a notation

The ways in which a notation can be wrong. A fault that concerns one piece of
the notation carries that piece's span; the others concern the notation as a
whole.
-/

namespace Polyhedra

/-- The fewest sides of a prism, antiprism or pyramid. -/
def minSeedSides : Nat := 3

/-- The most sides of a prism, antiprism or pyramid. -/
def maxSeedSides : Nat := 10000

/-- The fewest sides a face can have, hence the least sensible kis selector. -/
def minKisSides : Nat := 3

/-- The largest number that may be written in a notation: it has to fit in 32 bits. -/
def maxNumber : Nat := 4294967295

/-- What is wrong with a notation. -/
inductive NotationError where
  /-- There is nothing to read. -/
  | empty
  /-- A character lies outside the alphabet. -/
  | undefinedCharacter (found : Char) (span : Span)
  /-- The text is not a run of operators followed by one seed. -/
  | illFormed (text : Text)
  | tooFewSides (sides : Nat) (span : Span)
  | tooManySides (sides : Nat) (span : Span)
  /-- A digit run stands for more than `maxNumber`. -/
  | numberTooLarge (digits : Text) (span : Span)
  /-- A number follows an operator that takes none. -/
  | unexpectedArgument (operator : Char) (span : Span)
  deriving DecidableEq

namespace NotationError

/-- The place of the fault, if it is a piece of the notation. -/
def span? : NotationError → Option Span
  | empty | illFormed _ => none
  | undefinedCharacter _ s | tooFewSides _ s | tooManySides _ s | numberTooLarge _ s
  | unexpectedArgument _ s => some s

def message : NotationError → String
  | empty => "Empty polyhedron expression"
  | undefinedCharacter found _ => s!"Undefined character: {found}"
  | illFormed text => s!"Ill-formed polyhedron expression: {String.ofList text}"
  | tooFewSides sides _ => s!"At least 3 sides are required, not {sides}"
  | tooManySides sides _ =>
    s!"Too many sides: {sides} exceeds the mesh size limit of {maxSeedSides}"
  | numberTooLarge digits _ => s!"Number too large: {String.ofList digits}"
  | unexpectedArgument operator _ => s!"Operator '{operator}' takes no numeric argument"

end NotationError

/-! ## Numbers with a place -/

/-- A side count within the bounds of the seed families. -/
def checkSides (sides : Nat) (span : Span) : Except NotationError Nat :=
  if sides < minSeedSides then .error (.tooFewSides sides span)
  else if maxSeedSides < sides then .error (.tooManySides sides span)
  else .ok sides

namespace Text

/-- The number a digit run stands for, if it is small enough. -/
def readNumber (digits : Text) (span : Span) : Except NotationError Nat :=
  if digits.value ≤ maxNumber then .ok digits.value else .error (.numberTooLarge digits span)

/-- The side count a digit run stands for. -/
def readSides (digits : Text) (span : Span) : Except NotationError Nat :=
  (digits.readNumber span).bind (checkSides · span)

end Text

end Polyhedra
