import Polyhedra.Construction.Blueprint

/-!
# Duals

The dual of a mesh has a vertex for each face and a face for each vertex. Its
faces are assembled from flags: where face `f` runs along an edge from `v` to
`w`, and face `g` runs along it from `w` to `v`, the dual face of `v` passes from
`g` to `f`. The faces come out in the order in which the flags name their
vertices; `Mesh.dual` puts them in the order of the vertices, finding the vertex
of each by what its first three faces have in common.

The positions are left open, at the centre; relaxation provides them.
-/

namespace Polyhedra

/-- The name of the dual of a solid: duality undoes itself. -/
def dualName : Text → Text
  | 'd' :: name => name
  | name => 'd' :: name

namespace Mesh

/-- All directed edges with the position of their face, in order. -/
def edgesWithFace (faces : List Face) : List ((Nat × Nat) × Nat) :=
  faces.zipIdx.flatMap fun (f, i) => f.edges.map fun edge => (edge, i)

/-- A linear hash: edges that follow each other are looked up close to each other. -/
instance : Hashable (Nat × Nat) where
  hash edge := 4 * UInt64.ofNat edge.1 + 7 * UInt64.ofNat edge.2

/-- The face that runs along each of the edges; of several the last one counts. -/
def faceAlong (edges : List ((Nat × Nat) × Nat)) : Std.HashMap (Nat × Nat) Nat :=
  lastByLabel edges

/-- The flags of the dual. An edge along which no face runs the other way has none. -/
def dualFlags (faces : List Face) : Except MeshError (List (Flag Nat Nat)) :=
  let edges := edgesWithFace faces
  let along := faceAlong edges
  edges.mapM fun ((source, target), i) =>
    match along[(target, source)]? with
    | none => .error (.missingOppositeEdge source target)
    | some across => .ok ⟨source, across, i⟩

/-- The dual as it is assembled, with its faces in the order of the flags. -/
def dualBlueprint (faces : List Face) : Except MeshError (Blueprint Nat Nat) :=
  (dualFlags faces).map fun flags =>
    ⟨(List.range faces.length).map fun i => (i, Point.zero), flags⟩

/--
The vertex that a dual face goes round, `dualFace` being its position among the
faces as assembled: the first vertex that its first three faces have in common.
-/
def ownerOf (table : Array Face) (vertexCount dualFace : Nat) (around : Face) :
    Except MeshError Nat :=
  match around with
  | f :: g :: h :: _ =>
    match Face.common? (table.getD f []) (table.getD g []) (table.getD h []) with
    | none => .error (.noCommonVertex dualFace)
    | some v => if v < vertexCount then .ok v else .error (.danglingVertex v)
  | _ => .error (.degenerateFace dualFace around.length)

/-- The assembled dual faces, each with the vertex that it goes round. -/
def ownedFaces (faces : List Face) (vertexCount : Nat) (assembled : List Face) :
    Except MeshError (List (Nat × Face)) :=
  let table := faces.toArray
  assembled.zipIdx.mapM fun (around, i) =>
    (ownerOf table vertexCount i around).map fun v => (v, around)

/-- The face that goes round each vertex, in order; of several the last one counts. -/
def arrangeByOwner (vertexCount : Nat) (owned : List (Nat × Face)) :
    Except MeshError (List Face) :=
  let byOwner := lastByLabel owned
  (List.range vertexCount).mapM fun v =>
    match byOwner[v]? with
    | none => .error (.missingFlag v)
    | some around => .ok around

/-- The assembled dual faces in the order of the vertices that they go round. -/
def orderByVertex (faces : List Face) (vertexCount : Nat) (assembled : List Face) :
    Except MeshError (List Face) :=
  (ownedFaces faces vertexCount assembled).bind (arrangeByOwner vertexCount)

/-- The faces of the dual, one for each vertex; they depend on the topology alone. -/
def dualFaces (faces : List Face) (vertexCount : Nat) : Except MeshError (List Face) :=
  ((dualBlueprint faces).bind Blueprint.faces).bind (orderByVertex faces vertexCount)

/-- The dual, without positions. -/
def dual (m : Mesh) : Except MeshError Mesh :=
  (dualFaces m.faces m.vertexCount).map fun faces =>
    ⟨dualName m.name, faces, Array.replicate m.faceCount Point.zero⟩

end Mesh

end Polyhedra
