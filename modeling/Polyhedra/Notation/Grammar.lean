import Polyhedra.Notation.Alphabet
import Polyhedra.Notation.Error
import Polyhedra.Notation.Lexeme

/-!
# The grammar of notations

A notation is a run of operators followed by one seed:

* an operator is a plain letter, or `k` or `t` with an optional number;
* a seed is the letter of a Platonic solid, or `P`, `A` or `Y` with a side count.

`IsNotation` states this grammar. `Text.validate` decides it and names the first
thing wrong. A character outside the alphabet is reported before anything else;
a selector that is too large is reported before a malformed remainder; the
seed's side count is looked at only when the whole text has the right form.
-/

namespace Polyhedra

/-! ## The grammar -/

/-- One operator with the number it carries, if any. -/
inductive IsOperator : Text → Prop where
  | plain {c : Char} (letter : Alphabet.isPlainOperator c = true) : IsOperator [c]
  | selecting {c : Char} {digits : Text} (letter : Alphabet.isSelectingOperator c = true)
      (all_digits : ∀ d ∈ digits, d.isDigit = true) (value_le : digits.value ≤ maxNumber) :
      IsOperator (c :: digits)

/-- One seed with its side count, if it needs one. -/
inductive IsSeed : Text → Prop where
  | fixed {c : Char} (letter : Alphabet.isFixedSeed c = true) : IsSeed [c]
  | family {c : Char} {digits : Text} (letter : Alphabet.isFamilySeed c = true)
      (all_digits : ∀ d ∈ digits, d.isDigit = true) (ne_nil : digits ≠ [])
      (le_value : minSeedSides ≤ digits.value) (value_le : digits.value ≤ maxSeedSides) :
      IsSeed (c :: digits)

/-- Operators followed by one seed. -/
inductive IsNotation : Text → Prop where
  | seed {s : Text} (isSeed : IsSeed s) : IsNotation s
  | operator {o s : Text} (isOperator : IsOperator o) (rest : IsNotation s) : IsNotation (o ++ s)

/-! ## Validation -/

namespace Lexeme

/--
Reads the lexemes of the notation `whole` from byte offset `start` on: operators
up to a seed, which has to be the last lexeme.
-/
def validateAll (whole : Text) : Nat → List Lexeme → Except NotationError Unit
  | _, [] => .error (.illFormed whole)
  | start, l :: rest =>
    let argument : Span := ⟨start + l.symbol.utf8Size, start + l.width⟩
    if Alphabet.isPlainOperator l.symbol then
      if l.digits = [] then validateAll whole (start + l.width) rest
      else .error (.illFormed whole)
    else if Alphabet.isSelectingOperator l.symbol then
      match l.digits.readNumber argument with
      | .error e => .error e
      | .ok _ => validateAll whole (start + l.width) rest
    else if Alphabet.isFixedSeed l.symbol then
      if l.digits = [] ∧ rest = [] then .ok () else .error (.illFormed whole)
    else if Alphabet.isFamilySeed l.symbol then
      if l.digits ≠ [] ∧ rest = [] then (l.digits.readSides argument).map fun _ => ()
      else .error (.illFormed whole)
    else .error (.illFormed whole)

end Lexeme

namespace Text

/-- The first character outside the alphabet, with its span; `offset` bytes lie before the text. -/
def firstUndefined? (offset : Nat) : Text → Option (Char × Span)
  | [] => none
  | c :: t =>
    if Alphabet.contains c then firstUndefined? (offset + c.utf8Size) t
    else some (c, ⟨offset, offset + c.utf8Size⟩)

/-- Accepts the notations of the grammar. -/
def validate (text : Text) : Except NotationError Unit :=
  if text = [] then .error .empty
  else
    match text.firstUndefined? 0 with
    | some (found, span) => .error (.undefinedCharacter found span)
    | none =>
      match text.lex with
      | ([], lexemes) => Lexeme.validateAll text 0 lexemes
      | (_ :: _, _) => .error (.illFormed text)

end Text

end Polyhedra
