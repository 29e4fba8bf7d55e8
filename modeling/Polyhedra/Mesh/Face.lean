/-!
# Faces

A face is the cyclic sequence of its vertices, clockwise as seen from outside,
written down from some starting vertex. Its directed edges and its corners are
read off by laying the sequence beside itself, moved on by one and by two
places.
-/

namespace Polyhedra

/-- The entry before each entry of a cyclic sequence: the sequence moved on by one place. -/
def previous {α : Type} (cycle : List α) : List α :=
  cycle.getLast?.toList ++ cycle.dropLast

@[simp] theorem previous_nil {α : Type} : previous ([] : List α) = [] := rfl

@[simp] theorem previous_concat {α : Type} (l : List α) (a : α) :
    previous (l ++ [a]) = a :: l := by
  simp [previous]

@[simp] theorem length_previous {α : Type} (cycle : List α) :
    (previous cycle).length = cycle.length := by
  cases cycle with
  | nil => rfl
  | cons a l => simp [previous, List.getLast?_cons]

/-- The directed edges of a cyclic sequence, the one that closes it first. -/
def cycleEdges {α : Type} (cycle : List α) : List (α × α) := (previous cycle).zip cycle

/-- The triples of consecutive entries, ordered by their last entry. -/
def cycleCorners {α : Type} (cycle : List α) : List (α × α × α) :=
  (previous (previous cycle)).zip (cycleEdges cycle)

/-- The vertices of a face in clockwise order. -/
abbrev Face := List Nat

namespace Face

/-- The directed edges of a face, from its last vertex to its first one first. -/
def edges (f : Face) : List (Nat × Nat) := cycleEdges f

/-- Three consecutive vertices, once for each vertex as the last of the three. -/
def corners (f : Face) : List (Nat × Nat × Nat) := cycleCorners f

/-- The first vertex of one face that two others have too. -/
def common? (first second third : Face) : Option Nat :=
  first.find? fun v => second.contains v && third.contains v

end Face

end Polyhedra
