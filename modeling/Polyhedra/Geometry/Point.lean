/-!
# Points

Points of three-dimensional space in double precision, with the few
constructions that place vertices: a point inside an edge, the pole of a plane
with respect to the unit sphere, the point of an edge's line that is closest to
the centre, and the normal at a corner.

The order of the arithmetic operations is part of each definition: a sum starts
from zero and runs from left to right.
-/

namespace Polyhedra

/-- Lengths below this are taken for zero. -/
def tolerance : Float := 1e-10

/-- The share of the nearer end in a point inside an edge. -/
def interiorWeight : Float := 0.7

def isNegligible (x : Float) : Bool := x.abs < tolerance

structure Point where
  x : Float
  y : Float
  z : Float
  deriving Inhabited

namespace Point

def zero : Point := ⟨0, 0, 0⟩

instance : Add Point := ⟨fun a b => ⟨a.x + b.x, a.y + b.y, a.z + b.z⟩⟩

instance : Sub Point := ⟨fun a b => ⟨a.x - b.x, a.y - b.y, a.z - b.z⟩⟩

instance : Neg Point := ⟨fun a => ⟨-a.x, -a.y, -a.z⟩⟩

instance : HMul Point Float Point := ⟨fun a s => ⟨a.x * s, a.y * s, a.z * s⟩⟩

instance : HDiv Point Float Point := ⟨fun a s => ⟨a.x / s, a.y / s, a.z / s⟩⟩

def dot (a b : Point) : Float := a.x * b.x + a.y * b.y + a.z * b.z

def cross (a b : Point) : Point :=
  ⟨a.y * b.z - b.y * a.z, a.z * b.x - b.z * a.x, a.x * b.y - b.x * a.y⟩

def squaredLength (a : Point) : Float := a.dot a

def length (a : Point) : Float := a.squaredLength.sqrt

def sum (points : List Point) : Point := points.foldl (· + ·) zero

/-- The mean of the points; that of no points is not a number. -/
def centroid (points : List Point) : Point := sum points / Float.ofNat points.length

/-- The point in the same direction at distance one, unless the length is negligible. -/
def unit? (a : Point) : Option Point :=
  let length := a.length
  if isNegligible length then none else some (a / length)

/-- The point at distance one, or the point itself if it has no direction. -/
def unitOrSelf (a : Point) : Point := a.unit?.getD a

/-- The point on the edge from `a` to `b` that is nearer to `a`. -/
def interior (a b : Point) : Point := a * interiorWeight + b * (1.0 - interiorWeight)

def midpoint (a b : Point) : Point := (a + b) / 2.0

/-- The point in the same direction at the reciprocal distance. -/
def reciprocal (a : Point) : Point := a / a.squaredLength

/-- The point closest to the centre on the line through `a` and `b`. -/
def tangent (a b : Point) : Point :=
  let d := b - a
  a - d * (d.dot a / d.squaredLength)

/-- The distance from the centre of the line through `a` and `b`. -/
def edgeDistance (a b : Point) : Float := (tangent a b).length

/-- The normal at the middle one of three corners, outward for a clockwise face. -/
def cornerNormal (a b c : Point) : Point := (b - c).cross (a - b)

end Point

end Polyhedra
