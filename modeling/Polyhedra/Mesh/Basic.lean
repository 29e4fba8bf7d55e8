import Polyhedra.Geometry.Point
import Polyhedra.Mesh.Error
import Polyhedra.Mesh.Face
import Std.Data.TreeSet

/-!
# Meshes

A mesh has a name, a list of faces and a position for each of its vertices,
which are numbered from zero. Nothing is assumed of the faces: they may name
vertices that do not exist, or leave the surface open. `Mesh.validate` accepts
the meshes in which faces are simple and every edge is run along both ways; it
does not count how many faces run along an edge one way, so that a mesh in which
two of them do may pass.

The faces and the number of vertices of a mesh are its topology; the positions
are its geometry. A mesh that is built has at most `maxVertices` vertices and
`maxFaces` faces.
-/

namespace Polyhedra

/-- The most vertices a solid may be built with. -/
def maxVertices : Nat := 10000000

/-- The most faces a solid may be built with. -/
def maxFaces : Nat := 10000000

/-- What a solid of this size has too many of, if anything: its vertices are counted first. -/
@[macro_inline]
def oversize? (vertices faces : Nat) : Option MeshError :=
  if maxVertices < vertices then some (.tooManyVertices vertices maxVertices)
  else if maxFaces < faces then some (.tooManyFaces faces maxFaces)
  else none

section Oversize

variable {vertices faces : Nat}

theorem oversize?_eq_none :
    oversize? vertices faces = none ↔ vertices ≤ maxVertices ∧ faces ≤ maxFaces := by
  unfold oversize?
  by_cases hv : maxVertices < vertices
  · simp [hv, Nat.not_le.2 hv]
  · by_cases hf : maxFaces < faces
    · simp [hv, hf, Nat.not_le.2 hf]
    · simp [hv, hf, Nat.not_lt.1 hv, Nat.not_lt.1 hf]

theorem oversize?_of_vertices (h : maxVertices < vertices) :
    oversize? vertices faces = some (.tooManyVertices vertices maxVertices) :=
  if_pos h

theorem oversize?_of_faces (hv : vertices ≤ maxVertices) (h : maxFaces < faces) :
    oversize? vertices faces = some (.tooManyFaces faces maxFaces) :=
  (if_neg (Nat.not_lt.2 hv)).trans (if_pos h)

/-- Nothing else is at fault with the size of a solid. -/
theorem oversize?_eq_some {err : MeshError} (h : oversize? vertices faces = some err) :
    (maxVertices < vertices ∧ err = .tooManyVertices vertices maxVertices) ∨
      (maxFaces < faces ∧ err = .tooManyFaces faces maxFaces) := by
  unfold oversize? at h
  split at h
  · next hv => exact .inl ⟨hv, (Option.some.inj h).symm⟩
  · split at h
    · next hf => exact .inr ⟨hf, (Option.some.inj h).symm⟩
    · cases h

end Oversize

structure Mesh where
  name : Text
  faces : List Face
  vertices : Array Point
  deriving Inhabited

attribute [local instance] lexOrd

/-- The different pairs of a list, in increasing order, the first component before the second. -/
def sortedPairs (pairs : List (Nat × Nat)) : Std.TreeSet (Nat × Nat) :=
  Std.TreeSet.ofList pairs

/-- An edge without its direction: the smaller vertex first. -/
def undirected (edge : Nat × Nat) : Nat × Nat := (min edge.1 edge.2, max edge.1 edge.2)

namespace Face

/-- The number of different vertices of a face. -/
def distinctCount (f : Face) : Nat := (Std.TreeSet.ofList f).size

/-- The first fault of a face on its own, `position` being its place among the faces. -/
def fault? (f : Face) (vertexCount position : Nat) : Option MeshError :=
  if f.distinctCount < 3 ∨ f.distinctCount ≠ f.length then
    some (.degenerateFace position f.distinctCount)
  else if f.any (vertexCount ≤ ·) then some (.undeclaredVertex position)
  else none

end Face

namespace Mesh

/-! ## Counting -/

def faceCount (m : Mesh) : Nat := m.faces.length

def vertexCount (m : Mesh) : Nat := m.vertices.size

/-- The mesh is small enough to be built. -/
def WithinLimits (m : Mesh) : Prop := m.vertexCount ≤ maxVertices ∧ m.faceCount ≤ maxFaces

theorem withinLimits_iff {m : Mesh} :
    m.WithinLimits ↔ oversize? m.vertexCount m.faceCount = none :=
  oversize?_eq_none.symm

/-- The number of edges of a closed surface with these faces and vertices, by Euler's formula. -/
def edgeCount (m : Mesh) : Nat := m.faceCount + m.vertexCount - 2

def summary (m : Mesh) : String :=
  s!"({m.faceCount} faces, {m.edgeCount} edges, {m.vertexCount} vertices)"

/-- The directed edges of all faces, face by face. -/
def directedEdges (m : Mesh) : List (Nat × Nat) := m.faces.flatMap Face.edges

/-- The edges without direction, each once, in increasing order. -/
def edges (m : Mesh) : List (Nat × Nat) := (sortedPairs (m.directedEdges.map undirected)).toList

/-! ## Positions -/

/-- The position of a vertex; a vertex without one counts as lying at the centre. -/
def position (m : Mesh) (v : Nat) : Point := m.vertices.getD v Point.zero

/-- A vertex that some face has but that has no position, if there is one. -/
def danglingVertex? (m : Mesh) : Option Nat :=
  m.faces.findSome? fun f => f.find? fun v => m.vertexCount ≤ v

/-- The value computed from the positions of all corners, which all have to exist. -/
def requirePositions {α : Type} (m : Mesh) (a : α) : Except MeshError α :=
  match m.danglingVertex? with
  | some v => .error (.danglingVertex v)
  | none => .ok a

/-- The centroid of each face. -/
def faceCenters (m : Mesh) : List Point :=
  m.faces.map fun f => Point.centroid (f.map m.position)

/-! ## Point reflection -/

/-- The image under reflection in the centre: positions negated, faces run backwards. -/
def inverted (m : Mesh) : Mesh where
  name := m.name
  faces := m.faces.map List.reverse
  vertices := m.vertices.map fun p => -p

/-! ## Validity -/

/-- The least directed edge along which no face runs the other way. -/
def unmatchedEdge? (m : Mesh) : Option (Nat × Nat) :=
  let directed := sortedPairs m.directedEdges
  directed.toList.find? fun e => !directed.contains e.swap

/--
Accepts the meshes in which every face has at least three vertices, all
different and all with a position, and every directed edge is met by one in the
opposite direction.
-/
def validate (m : Mesh) : Except MeshError Unit :=
  match m.faces.zipIdx.findSome? fun (f, i) => f.fault? m.vertexCount i with
  | some e => .error e
  | none =>
    match m.unmatchedEdge? with
    | some (source, target) => .error (.missingOppositeEdge source target)
    | none => .ok ()

end Mesh

end Polyhedra
