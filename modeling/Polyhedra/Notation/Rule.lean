import Polyhedra.Notation.Lexeme

/-!
# Rules of reduction

A rule replaces one way of writing a construction by another. Rules of three
shapes are enough: a literal piece of text anywhere, a suffix, and a letter
together with the number it carries. `Rule.table` lists the rules in the order
in which they are tried: collapse of degenerate seeds, expansion of aliases,
and then the identities between primitive operators and seeds.
-/

namespace Polyhedra

/-- A way to replace one piece of a notation by another. -/
inductive Rule where
  /-- Every occurrence of `pattern`, found from left to right without overlap. -/
  | literal (pattern replacement : Text)
  /-- An occurrence of `pattern` at the end of the text. -/
  | suffix (pattern replacement : Text)
  /-- Every `letter` with its maximal digit run `n`, which becomes `before n after`. -/
  | argument (letter : Char) (before after : Text)
  deriving DecidableEq

/--
Replaces the occurrences of `pattern` in a text from left to right. The number
counts the characters of the last occurrence that are still to be passed over.
-/
def Text.replaceFrom (pattern replacement : Text) : Nat → Text → Text
  | _, [] => []
  | skip + 1, _ :: t => replaceFrom pattern replacement skip t
  | 0, c :: t =>
    if pattern.isPrefixOf (c :: t) then
      replacement ++ replaceFrom pattern replacement (pattern.length - 1) t
    else c :: replaceFrom pattern replacement 0 t

namespace Rule

/-- One application of the rule to a whole text. -/
def apply : Rule → Text → Text
  | literal pattern replacement, t => Text.replaceFrom pattern replacement 0 t
  | suffix pattern replacement, t =>
    if pattern.isSuffixOf t then t.take (t.length - pattern.length) ++ replacement else t
  | argument letter before after, t =>
    match t.lex with
    | (digits, lexemes) =>
      digits ++ lexemes.flatMap fun l =>
        if l.symbol = letter then before ++ l.digits ++ after else l.text

/--
One occurrence of what the rule looks for, anywhere in a text, is replaced. A
digit run counts only if it is maximal.
-/
inductive Replaces : Rule → Text → Text → Prop where
  | literal (pattern replacement before after : Text) :
    Replaces (literal pattern replacement) (before ++ pattern ++ after)
      (before ++ replacement ++ after)
  | suffix (pattern replacement before : Text) :
    Replaces (suffix pattern replacement) (before ++ pattern) (before ++ replacement)
  | argument (letter : Char) (left right before digits after : Text)
    (all_digits : ∀ d ∈ digits, d.isDigit = true)
    (maximal : ∀ d ∈ after.head?, d.isDigit = false) :
    Replaces (argument letter left right) (before ++ letter :: digits ++ after)
      (before ++ left ++ digits ++ right ++ after)

/-- The rule as written in listings, such as `P4 -> C`. -/
def name : Rule → String
  | literal pattern replacement | suffix pattern replacement =>
    String.ofList pattern ++ " -> " ++ String.ofList replacement
  | argument letter before after =>
    String.ofList [letter] ++ "(n) -> " ++ String.ofList before ++ "(n)" ++ String.ofList after

/-- All rules, in the order in which they are tried. -/
def table : List Rule :=
  [ -- seeds that are Platonic solids
    suffix ['P', '4'] ['C'],
    suffix ['A', '3'] ['O'],
    suffix ['Y', '3'] ['T'],
    -- aliases
    literal ['e'] ['a', 'a'],
    literal ['b'] ['t', 'a'],
    literal ['o'] ['j', 'j'],
    literal ['m'] ['k', 'j'],
    argument 't' ['d', 'k'] ['d'],
    literal ['j'] ['d', 'a', 'd'],
    literal ['s'] ['d', 'g', 'd'],
    -- duality
    literal ['d', 'd'] [],
    literal ['a', 'd'] ['a'],
    literal ['g', 'd'] ['g'],
    literal ['a', 'Y'] ['A'],
    -- operators on seeds
    literal ['d', 'T'] ['T'],
    literal ['g', 'T'] ['D'],
    literal ['a', 'T'] ['O'],
    literal ['d', 'C'] ['O'],
    literal ['d', 'O'] ['C'],
    literal ['d', 'I'] ['D'],
    literal ['d', 'D'] ['I'],
    literal ['a', 'O'] ['a', 'C'],
    literal ['a', 'I'] ['a', 'D'],
    literal ['g', 'O'] ['g', 'C'],
    literal ['g', 'I'] ['g', 'D'] ]

/-- The rule of the table with the given name. -/
def named? (name : String) : Option Rule := table.find? (·.name == name)

end Rule

end Polyhedra
