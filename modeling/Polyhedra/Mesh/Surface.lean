import Polyhedra.Mesh.Basic

/-!
# Surfaces

What it takes for a mesh to be a closed surface, and for the surface to be that
of a polyhedron, stated on the faces and the number of vertices alone:

* every face has at least three vertices, all different, all with a position
  (`Mesh.Proper`);
* every directed edge lies in exactly one face, and so does its reverse
  (`Mesh.EdgesOnce`, `Mesh.EdgesPaired`);
* the faces at each vertex follow one another in a single circle
  (`Mesh.Encircles`);
* two faces share nothing, a vertex, or an edge (`Mesh.FacesMeetInEdges`).

The first three make a `Mesh.Surface`, all of them a `Mesh.Polyhedral` mesh.
-/

namespace Polyhedra

/-- A face with at least three vertices, none of them twice. -/
structure Face.Simple (f : Face) : Prop where
  nodup : f.Nodup
  three_le : 3 ≤ f.length

namespace Mesh

/-- Every vertex of every face has a position. -/
def InRange (m : Mesh) : Prop := ∀ f ∈ m.faces, ∀ v ∈ f, v < m.vertexCount

instance (m : Mesh) : Decidable m.InRange :=
  inferInstanceAs (Decidable (∀ f ∈ m.faces, ∀ v ∈ f, v < m.vertexCount))

/-- Every face is simple, and all its vertices have a position. -/
structure Proper (m : Mesh) : Prop where
  simple : ∀ f ∈ m.faces, f.Simple
  inRange : m.InRange

/-- No directed edge occurs twice, be it in one face or in two. -/
def EdgesOnce (m : Mesh) : Prop := m.directedEdges.Nodup

/-- Along every edge some face runs the other way. -/
def EdgesPaired (m : Mesh) : Prop := ∀ e ∈ m.directedEdges, e.swap ∈ m.directedEdges

/-- The face at position `i` runs from `v` to `w`. -/
def RunsAlong (m : Mesh) (i v w : Nat) : Prop := ∃ f, m.faces[i]? = some f ∧ (v, w) ∈ f.edges

/-- The face at position `i` has the vertex `v`. -/
def Touches (m : Mesh) (i v : Nat) : Prop := ∃ f, m.faces[i]? = some f ∧ v ∈ f

/--
The positions `around` are those of the faces at the vertex `v`, at least three,
each once, in the order in which they follow one another across the edges at
`v`.
-/
structure Encircles (m : Mesh) (v : Nat) (around : List Nat) : Prop where
  simple : Face.Simple around
  mem_iff : ∀ i, i ∈ around ↔ m.Touches i v
  across : ∀ i j, (i, j) ∈ cycleEdges around → ∃ w, m.RunsAlong i w v ∧ m.RunsAlong j v w

/-- A closed surface on which every vertex is surrounded by its faces once. -/
structure Surface (m : Mesh) : Prop extends Proper m where
  edgesOnce : m.EdgesOnce
  edgesPaired : m.EdgesPaired
  encircled : ∀ v < m.vertexCount, ∃ around, m.Encircles v around

/-- Two vertices that two different faces share are all that they share, and form an edge. -/
def FacesMeetInEdges (m : Mesh) : Prop :=
  ∀ i j u v, i ≠ j → u ≠ v → m.Touches i u → m.Touches j u → m.Touches i v → m.Touches j v →
    (m.RunsAlong i u v ∨ m.RunsAlong i v u) ∧
      ∀ w, m.Touches i w → m.Touches j w → w = u ∨ w = v

/-- The surface of a polyhedron, as far as its faces tell. -/
structure Polyhedral (m : Mesh) : Prop extends Surface m where
  facesMeetInEdges : m.FacesMeetInEdges

end Mesh

end Polyhedra
