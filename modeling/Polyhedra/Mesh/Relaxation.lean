import Polyhedra.Mesh.Dual
import Polyhedra.Run

/-!
# Relaxation

A solid is improved together with its dual. One pass moves the vertices of the
dual to the poles of the faces of the solid, and then the vertices of the solid
to the poles of the faces of the dual; `Relaxation` says which poles are meant.
Only positions move: names, faces and the numbers of vertices stay as they are
once the dual has been made.
-/

namespace Polyhedra

/-- A solid and its dual, each with one vertex for every face of the other. -/
structure DualPair where
  solid : Mesh
  dual : Mesh
  deriving Inhabited

namespace DualPair

/-- The pair seen from the other side. -/
def swap (p : DualPair) : DualPair := ⟨p.dual, p.solid⟩

end DualPair

/-! ## Poles -/

/-- The sum of the corner normals along a face with these positions. -/
def faceNormal (corners : List (Point × Point × Point)) : Point :=
  Point.sum (corners.map fun (a, b, c) => Point.cornerNormal a b c)

/-- The mean distance from the centre of the lines of the edges of a face. -/
def meanEdgeDistance (corners : List (Point × Point × Point)) : Float :=
  (corners.map fun (a, b, _) => Point.edgeDistance a b).foldl (· + ·) 0
    / Float.ofNat corners.length

/--
The pole of the plane through the centroid of a face across its normal, moved
halfway towards where the edges touch the unit sphere on average.
-/
def normalPole (corners : List (Point × Point × Point)) : Point :=
  let centroid := Point.centroid (corners.map fun (_, _, c) => c)
  let normal := (faceNormal corners).unitOrSelf
  let pole := (normal * centroid.dot normal).reciprocal
  pole * ((1.0 + meanEdgeDistance corners) / 2.0)

namespace Mesh

/-- The positions of the corners of each face. -/
def cornerPositions (m : Mesh) : List (List (Point × Point × Point)) :=
  m.faces.map fun f =>
    f.corners.map fun (a, b, c) => (m.position a, m.position b, m.position c)

/-- The poles of the centroids of the faces. -/
def reciprocalCenters (m : Mesh) : List Point := m.faceCenters.map Point.reciprocal

/-- The poles of the planes of the faces. -/
def reciprocalNormals (m : Mesh) : List Point := m.cornerPositions.map normalPole

/-- The poles of the faces, and a warning for each face whose normal is needed but missing. -/
def poles (rule : Relaxation) (m : Mesh) : Array Point × List Warning :=
  match rule with
  | .planar => (m.reciprocalCenters.toArray, [])
  | .canonical =>
    (m.reciprocalNormals.toArray, Warning.forDirections (m.cornerPositions.map faceNormal))

end Mesh

/-! ## Passes -/

namespace DualPair

/-- Moves the dual against the solid, then the solid against the dual. -/
def pass (rule : Relaxation) (p : DualPair) : DualPair × List Warning :=
  let (dualVertices, first) := p.solid.poles rule
  let dual : Mesh := { p.dual with vertices := dualVertices }
  let (solidVertices, second) := dual.poles rule
  (⟨{ p.solid with vertices := solidVertices }, dual⟩, first ++ second)

/-- Several passes, with the warnings of all of them. -/
def passes (rule : Relaxation) : Nat → DualPair → DualPair × List Warning
  | 0, p => (p, [])
  | n + 1, p =>
    let (next, first) := p.pass rule
    let (last, rest) := passes rule n next
    (last, first ++ rest)

end DualPair

namespace Relaxation

/-- The pair to start from; a pass can be made only if every corner has a position. -/
def start (count : Nat) (m dual : Mesh) : Except MeshError DualPair :=
  if count = 0 then .ok ⟨m, dual⟩ else m.requirePositions ⟨m, dual⟩

/-- Makes the dual and relaxes the solid against it. -/
def relax (rule : Relaxation) (count : Nat) (m : Mesh) : Run DualPair := do
  Run.note (.dualTaken m.name)
  let dual ← Run.ofExcept m.dual
  Run.note (.relaxed rule m.name)
  let pair ← Run.ofExcept (start count m dual)
  let (relaxed, warnings) := pair.passes rule count
  Run.warn warnings
  return relaxed

end Relaxation

end Polyhedra
