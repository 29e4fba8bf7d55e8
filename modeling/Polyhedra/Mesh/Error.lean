import Polyhedra.Notation.Error

/-!
# Faults of a construction

Why a solid could not be built. Faces are named by their position among the
faces under construction.
-/

namespace Polyhedra

inductive MeshError where
  /-- What was asked for is no notation. -/
  | unreadable (cause : NotationError)
  /-- The directed edges of a face go round without coming back to where they began. -/
  | openFace (face steps : Nat)
  /-- The directed edges of a face break off. -/
  | missingFlag (face : Nat)
  /-- A face has a vertex that was never declared. -/
  | undeclaredVertex (face : Nat)
  /-- No face runs along an edge the other way. -/
  | missingOppositeEdge (source target : Nat)
  /-- The faces around a vertex of the dual do not meet. -/
  | noCommonVertex (face : Nat)
  /-- A face has fewer than three different vertices, or one of them twice. -/
  | degenerateFace (face sides : Nat)
  /-- The dual is asked for, but was never made. -/
  | dualNotMaterialized (name : Text)
  /-- There are more vertices than a solid may have. -/
  | tooManyVertices (count max : Nat)
  /-- There are more faces than a solid may have. -/
  | tooManyFaces (count max : Nat)
  /-- A face has a vertex that has no position. -/
  | danglingVertex (vertex : Nat)
  deriving DecidableEq

namespace MeshError

def message : MeshError → String
  | unreadable cause => s!"Notation error: {cause.message}"
  | openFace face steps => s!"Face {face} does not close after {steps} steps"
  | missingFlag face => s!"Face {face} is missing a flag"
  | undeclaredVertex face => s!"Face {face} references an undeclared vertex"
  | missingOppositeEdge source target => s!"Edge {source} -> {target} has no opposite edge"
  | noCommonVertex face => s!"Dual face {face} shares no vertex across its first three faces"
  | degenerateFace face sides => s!"Face {face} has only {sides} distinct vertices"
  | dualNotMaterialized name => s!"No dual has been materialized for {String.ofList name}"
  | tooManyVertices count max => s!"Too many vertices: {count} (max: {max})"
  | tooManyFaces count max => s!"Too many faces: {count} (max: {max})"
  | danglingVertex vertex => s!"Vertex {vertex} has no position"

/-- Whether the fault lies in the solid rather than in what was asked for, or in its size. -/
def isInternal : MeshError → Bool
  | unreadable _ | dualNotMaterialized _ | tooManyVertices .. | tooManyFaces .. => false
  | _ => true

end MeshError

end Polyhedra
