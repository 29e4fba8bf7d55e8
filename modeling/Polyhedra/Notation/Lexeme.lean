import Polyhedra.Notation.Text

/-!
# Lexemes

Every text splits in exactly one way into leading digits followed by lexemes,
where a lexeme is a character that is no digit together with the maximal run of
digits after it. Nothing is lost: `Text.lex_join` puts the pieces together again.
-/

namespace Polyhedra

/-- A character that is no digit, with the digits that follow it. -/
structure Lexeme where
  symbol : Char
  digits : Text
  deriving DecidableEq

namespace Lexeme

def text (l : Lexeme) : Text := l.symbol :: l.digits

/-- The number of bytes of the lexeme. -/
def width (l : Lexeme) : Nat := l.text.byteLength

/-- The text of a run of lexemes. -/
def join (lexemes : List Lexeme) : Text := lexemes.flatMap text

end Lexeme

namespace Text

/-- The leading digits of a text and the lexemes after them. -/
def lex : Text → Text × List Lexeme
  | [] => ([], [])
  | c :: t =>
    match lex t with
    | (digits, lexemes) =>
      if c.isDigit then (c :: digits, lexemes) else ([], ⟨c, digits⟩ :: lexemes)

@[simp] theorem lex_nil : lex [] = ([], []) := rfl

theorem lex_cons_of_isDigit {c : Char} (h : c.isDigit = true) (t : Text) :
    lex (c :: t) = (c :: (lex t).1, (lex t).2) := by
  simp [lex, h]

theorem lex_cons_of_not_isDigit {c : Char} (h : c.isDigit = false) (t : Text) :
    lex (c :: t) = ([], ⟨c, (lex t).1⟩ :: (lex t).2) := by
  simp [lex, h]

/-- Splitting loses nothing. -/
theorem lex_join (t : Text) : (lex t).1 ++ Lexeme.join (lex t).2 = t := by
  induction t with
  | nil => rfl
  | cons c t ih =>
    cases h : c.isDigit with
    | true => simp [lex_cons_of_isDigit h, ih]
    | false => simpa [lex_cons_of_not_isDigit h, Lexeme.join, Lexeme.text] using ih

end Text

end Polyhedra
