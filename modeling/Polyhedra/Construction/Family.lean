import Polyhedra.Mesh.Basic

/-!
# Families of seeds

Prisms, antiprisms and pyramids over a regular polygon, before relaxation. A
polygon is a ring of points around the vertical axis; the upper polygon is run
through backwards and the lower one forwards, so that both are clockwise from
outside. The definitions make sense for every side count, also below three.
-/

namespace Polyhedra

/-- The height of the base of a pyramid. -/
def pyramidBaseHeight : Float := 0.2

/-- The height of the apex of a pyramid, which points down. -/
def pyramidApexHeight : Float := -2.0

/-- The full angle. -/
def fullAngle : Float := 6.283185307179586

namespace Mesh

/-- The angle between neighbours in a ring of `n` points. -/
def stepAngle (n : Nat) : Float := fullAngle / Float.ofNat n

/-- A ring of `n` points at the given radius and height, turned by `phase` steps. -/
def ring (n : Nat) (phase radius height : Float) : List Point :=
  (List.range n).map fun i =>
    let angle := (Float.ofNat i + phase) * stepAngle n
    ⟨radius * angle.cos, radius * angle.sin, height⟩

/-- The numbers below `n`, from the largest down. -/
def descending (n : Nat) : Face := (List.range n).reverse

/-- The numbers from `n` up to `2 * n - 1`. -/
def upperHalf (n : Nat) : Face := (List.range n).map (n + ·)

/-! ## Prisms -/

/-- The side of a prism between vertex `i` and its successor. -/
def prismSide (n i : Nat) : Face := [i, (i + 1) % n, (i + 1) % n + n, i + n]

def prismFaces (n : Nat) : List Face :=
  descending n :: upperHalf n :: (List.range n).map (prismSide n)

/-- The prism whose sides are squares. -/
def prism (n : Nat) : Mesh where
  name := 'P' :: Text.ofNat n
  faces := prismFaces n
  vertices :=
    let height := (stepAngle n / 2.0).sin
    (ring n 0.0 1.0 height ++ ring n 0.0 1.0 (-height)).toArray

/-! ## Antiprisms -/

/-- The two triangles of an antiprism that meet between vertex `i` and the one below it. -/
def antiprismSides (n i : Nat) : List Face :=
  [[i, (i + 1) % n, i + n], [i, i + n, (n + i - 1) % n + n]]

def antiprismFaces (n : Nat) : List Face :=
  descending n :: upperHalf n :: (List.range n).flatMap (antiprismSides n)

/--
Radius and height of the rings of an antiprism: those for which all edges are of
one length, divided by the distance of the edges from the centre.
-/
def antiprismSize (n : Nat) : Float × Float :=
  let angle := stepAngle n
  let height := (1.0 - 4.0 / (4.0 + 2.0 * (angle / 2.0).cos - 2.0 * angle.cos)).sqrt
  let radius := (1.0 - height * height).sqrt
  let inner := radius * (angle / 2.0).cos
  let edge := (height * height + inner * inner).sqrt
  (radius / edge, height / edge)

/-- The antiprism whose edges touch the unit sphere. -/
def antiprism (n : Nat) : Mesh where
  name := 'A' :: Text.ofNat n
  faces := antiprismFaces n
  vertices :=
    let (radius, height) := antiprismSize n
    (ring n 0.0 radius height ++ ring n 0.5 radius (-height)).toArray

/-! ## Pyramids -/

/-- The side of a pyramid between vertex `i` of the base and its successor. -/
def pyramidSide (n i : Nat) : Face := [i, (i + 1) % n, n]

def pyramidFaces (n : Nat) : List Face :=
  descending n :: (List.range n).map (pyramidSide n)

/-- The pyramid with its base above and its apex below. -/
def pyramid (n : Nat) : Mesh where
  name := 'Y' :: Text.ofNat n
  faces := pyramidFaces n
  vertices :=
    let apex : Point := ⟨0.0, 0.0, pyramidApexHeight⟩
    (ring n 0.0 1.0 pyramidBaseHeight ++ [apex]).toArray

end Mesh

end Polyhedra
