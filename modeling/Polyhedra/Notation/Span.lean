import Polyhedra.Notation.Text

/-!
# Spans

A span is a half-open range of byte offsets into a text. Spans are plain data:
one may be inverted, or reach past the text it is laid over. Such a span has
length zero or an empty slice; it is never an error.
-/

namespace Polyhedra

/-- The bytes from `start` up to, but not including, `stop`. -/
structure Span where
  start : Nat
  stop : Nat
  deriving DecidableEq, Inhabited

namespace Span

/-- The number of bytes covered; an inverted span covers none. -/
def length (s : Span) : Nat := s.stop - s.start

def isEmpty (s : Span) : Bool := s.length == 0

/-- The same span in a text that stands `n` bytes further on. -/
def shift (s : Span) (n : Nat) : Span := ⟨n + s.start, n + s.stop⟩

/--
The text under the span. A span that is inverted, reaches past the end or
cuts through a character covers nothing.
-/
def slice (s : Span) (source : Text) : Text :=
  if s.start ≤ s.stop then
    ((source.dropBytes? s.start).bind (·.takeBytes? s.length)).getD []
  else []

/-- The written form `start..stop`. -/
def render (s : Span) : String := s!"{s.start}..{s.stop}"

/-- A span laid over the middle one of three pieces slices out that piece. -/
theorem slice_middle (before middle after : Text) :
    slice ⟨before.byteLength, before.byteLength + middle.byteLength⟩
      (before ++ (middle ++ after)) = middle := by
  simp [slice, length, Text.dropBytes?_byteLength, Text.takeBytes?_byteLength]

end Span

end Polyhedra
