import Polyhedra.Notation.Text

/-!
# The alphabet

A notation is written with operator letters, seed letters and decimal digits.
Operators are plain or may carry a number (`k3`); seeds are fixed solids or
families that need a side count (`P5`). Seven operators are aliases, which the
rules of reduction expand into primitive ones.
-/

namespace Polyhedra.Alphabet

/-- Operators that never carry a number. -/
def plainOperators : Text := ['a', 'j', 's', 'g', 'e', 'b', 'o', 'm', 'd', 'c', 'r', 'p']

/-- Operators that may carry a number, which selects faces by their side count. -/
def selectingOperators : Text := ['k', 't']

/-- The letters of the five Platonic solids. -/
def fixedSeeds : Text := ['T', 'C', 'O', 'I', 'D']

/-- The letters of the families that need a side count. -/
def familySeeds : Text := ['P', 'A', 'Y']

/-- Operators that stand for a combination of primitive operators. -/
def aliases : Text := ['t', 'j', 's', 'e', 'b', 'o', 'm']

def isPlainOperator (c : Char) : Bool := plainOperators.contains c

def isSelectingOperator (c : Char) : Bool := selectingOperators.contains c

def isFixedSeed (c : Char) : Bool := fixedSeeds.contains c

def isFamilySeed (c : Char) : Bool := familySeeds.contains c

def isSeed (c : Char) : Bool := isFixedSeed c || isFamilySeed c

/-- Membership in the alphabet; the digits are the ASCII ones alone. -/
def contains (c : Char) : Bool :=
  c.isDigit || isPlainOperator c || isSelectingOperator c || isSeed c

end Polyhedra.Alphabet
