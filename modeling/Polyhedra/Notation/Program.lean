import Polyhedra.Notation.Alphabet
import Polyhedra.Notation.Diagnostic
import Polyhedra.Notation.Lexeme

/-!
# Programs

The meaning of a canonical notation: a seed and the primitive operations that
are applied to it. Operations are kept in the order in which they are written;
they are applied from right to left, the one next to the seed first.

Seeds and operations print (`Seed.text`, `Operation.text`) the way they are
read. A token is an operation with its place in the notation.
-/

namespace Polyhedra

/-! ## Seeds -/

/-- A solid from which a construction starts. -/
inductive Seed where
  | tetrahedron
  | octahedron
  | cube
  | icosahedron
  | dodecahedron
  /-- Two polygons joined by squares. -/
  | prism (sides : Nat)
  /-- Two polygons, one turned by half a step, joined by triangles. -/
  | antiprism (sides : Nat)
  /-- A polygon joined to an apex. -/
  | pyramid (sides : Nat)
  deriving DecidableEq

namespace Seed

def symbol : Seed → Char
  | tetrahedron => 'T'
  | octahedron => 'O'
  | cube => 'C'
  | icosahedron => 'I'
  | dodecahedron => 'D'
  | prism _ => 'P'
  | antiprism _ => 'A'
  | pyramid _ => 'Y'

/-- The side count of a member of a family. -/
def sides? : Seed → Option Nat
  | prism n | antiprism n | pyramid n => some n
  | _ => none

/-- The seed with a letter and a side count, if the letter takes one or does without. -/
def ofSymbol? : Char → Option Nat → Option Seed
  | 'T', none => some tetrahedron
  | 'O', none => some octahedron
  | 'C', none => some cube
  | 'I', none => some icosahedron
  | 'D', none => some dodecahedron
  | 'P', some n => some (prism n)
  | 'A', some n => some (antiprism n)
  | 'Y', some n => some (pyramid n)
  | _, _ => none

/-- The notation of the seed, such as `C` or `P5`. -/
def text (s : Seed) : Text := s.symbol :: (s.sides?.map Text.ofNat).getD []

end Seed

/-! ## Operations -/

/-- A primitive operation on polyhedra. -/
inductive Operation where
  /-- Raises a pyramid on the faces with the given number of sides, or on all. -/
  | kis (sides : Option Nat)
  | ambo
  | gyro
  | propellor
  /-- Exchanges the polyhedron with the dual that was made along with it. -/
  | dual
  | canonicalize
  | reflect
  deriving DecidableEq

namespace Operation

def symbol : Operation → Char
  | kis _ => 'k'
  | ambo => 'a'
  | gyro => 'g'
  | propellor => 'p'
  | dual => 'd'
  | canonicalize => 'c'
  | reflect => 'r'

/-- The operation with a letter; kis comes without a selector. -/
def ofSymbol? : Char → Option Operation
  | 'k' => some (kis none)
  | 'a' => some ambo
  | 'g' => some gyro
  | 'p' => some propellor
  | 'd' => some dual
  | 'c' => some canonicalize
  | 'r' => some reflect
  | _ => none

/-- The notation of the operation, such as `a` or `k3`. -/
def text : Operation → Text
  | kis (some n) => 'k' :: Text.ofNat n
  | op => [op.symbol]

end Operation

/-! ## Tokens -/

/-- An operation with its place in the notation. -/
structure Token where
  operation : Operation
  span : Span
  deriving DecidableEq

namespace Token

/--
Advice about a kis selector that no face can match. The selector `0`, which
selects all faces, is reported as well, since it is rarely what was meant.
-/
def advice? (t : Token) : Option Diagnostic :=
  match t.operation with
  | .kis (some n) =>
    if n < minKisSides then
      some
        { severity := .warning
          message := s!"A kis selector of {n} makes no sense, but looking anyway"
          span := t.span
          hint := some "faces need at least 3 sides" }
    else none
  | _ => none

/-- Reads a lexeme of the operator run `whole` that starts at byte `start`. -/
def ofLexeme (whole : Text) (start : Nat) (l : Lexeme) : Except NotationError Token :=
  match Operation.ofSymbol? l.symbol with
  | none => .error (.illFormed whole)
  | some operation =>
    let argument : Span := ⟨start + l.symbol.utf8Size, start + l.width⟩
    if l.digits = [] then .ok ⟨operation, ⟨start, start + l.width⟩⟩
    else
      match operation with
      | .kis _ =>
        (l.digits.readNumber argument).map fun n =>
          ⟨.kis (some n), ⟨start, start + l.width⟩⟩
      | _ => .error (.unexpectedArgument l.symbol argument)

/-- Reads the lexemes of the operator run `whole` from byte `start` on. -/
def ofLexemes (whole : Text) : Nat → List Lexeme → Except NotationError (List Token)
  | _, [] => .ok []
  | start, l :: rest =>
    match ofLexeme whole start l with
    | .error e => .error e
    | .ok token => (ofLexemes whole (start + l.width) rest).map (token :: ·)

/-- Reads a run of primitive operators that stands at byte `offset` of a notation. -/
def parse (offset : Nat) (text : Text) : Except NotationError (List Token) :=
  match text.lex with
  | ([], lexemes) => ofLexemes text offset lexemes
  | (_ :: _, _) => .error (.illFormed text)

end Token

/-! ## Programs -/

/-- A canonical notation with its seed and its operations in written order. -/
structure Program where
  text : Text
  seed : Seed
  seedSpan : Span
  operations : List Token
  deriving DecidableEq

namespace Program

/--
Reads the seed at the end of a notation: the last lexeme `l`, which starts at
byte `start`. A side count out of bounds is reported even for a letter that
takes no side count.
-/
def readSeed (whole : Text) (start : Nat) (l : Lexeme) : Except NotationError Seed :=
  if Alphabet.isSeed l.symbol then
    let sides? : Except NotationError (Option Nat) :=
      if l.digits = [] then .ok none
      else (l.digits.readSides ⟨start + l.symbol.utf8Size, start + l.width⟩).map some
    match sides? with
    | .error e => .error e
    | .ok sides =>
      match Seed.ofSymbol? l.symbol sides with
      | none => .error (.illFormed whole)
      | some seed => .ok seed
  else .error (.illFormed whole)

/--
Reads a notation in which only primitive operators occur. The seed is read
first, from the end; then the operators in front of it.
-/
def parse (text : Text) : Except NotationError Program :=
  if text = [] then .error .empty
  else
    match text.lex with
    | (digits, lexemes) =>
      match lexemes.getLast? with
      | none => .error (.illFormed text)
      | some last =>
        let front := digits ++ Lexeme.join lexemes.dropLast
        match readSeed text front.byteLength last with
        | .error e => .error e
        | .ok seed =>
          (Token.parse 0 front).map fun operations =>
            ⟨text, seed, ⟨front.byteLength, text.byteLength⟩, operations⟩

/-- The tokens in the order in which they are applied. -/
def applicationOrder (p : Program) : List Token := p.operations.reverse

/-- Advice about the operations, in written order. -/
def advice (p : Program) : List Diagnostic := p.operations.filterMap Token.advice?

end Program

end Polyhedra
