import Polyhedra.Construction.Blueprint
import Polyhedra.Run

/-!
# Operators

Each operator describes its outcome by a blueprint over two kinds of labels. A
`Site` is a place on the old solid where a vertex of the new one stands: an old
vertex, the centre of a face, or a place on an edge. A `Patch` is a part of the
old solid that a face of the new one covers: a face, a vertex, or one corner of
a face. The flags of a blueprint follow from the faces of the old solid alone;
positions enter only where the sites are placed.

The faces of the old solid are run through corner by corner. At the corner
`(u, v, w)` of face `i`, which lies at `v`:

* *ambo* joins the midpoints of the two edges, once within face `i` and once
  around vertex `v`;
* *gyro* goes from the centre of `i` along the edge from `u` to `v`, past both of
  its points, to `v`, on to the edge from `v` to `w`, and back to the centre;
* *propellor* turns face `i` and fills the gap at the corner with a quadrilateral.

*Kis* runs through the edges of the faces instead, and raises a triangle on each
edge of a selected face.
-/

namespace Polyhedra

/-- Where a vertex of the new solid stands on the old one. -/
inductive Site where
  | vertex (v : Nat)
  /-- The middle of a face. -/
  | center (face : Nat)
  /-- A place on an edge, nearer to `v` if the edge has two of them. -/
  | edge (v w : Nat)
  deriving DecidableEq

/-- A linear hash, as for edges: neighbouring sites are looked up close to each other. -/
instance : Hashable Site where
  hash
    | .vertex v => 3 * UInt64.ofNat v
    | .center face => 3 * UInt64.ofNat face + 1
    | .edge v w => 12 * UInt64.ofNat v + 21 * UInt64.ofNat w + 2

/-- What a face of the new solid covers on the old one. -/
inductive Patch where
  | face (face : Nat)
  | vertex (v : Nat)
  /-- The corner of a face at a vertex. -/
  | corner (face v : Nat)
  deriving DecidableEq

instance : Hashable Patch where
  hash
    | .face face => 3 * UInt64.ofNat face
    | .vertex v => 3 * UInt64.ofNat v + 1
    | .corner face v => 12 * UInt64.ofNat face + 21 * UInt64.ofNat v + 2

/-- The one place in the middle of an edge, whichever way the edge is run through. -/
def Site.middle (v w : Nat) : Site := .edge (min v w) (max v w)

/-- A blueprint over sites and patches. -/
abbrev Design := Blueprint Site Patch

namespace Mesh

/-- The sites at the old vertices, in order. -/
def vertexSites (m : Mesh) (place : Point → Point) : List (Site × Point) :=
  m.vertices.toList.zipIdx.map fun (p, v) => (.vertex v, place p)

/-- The sites in the middle of the faces, in order. -/
def centerSites (m : Mesh) (place : Point → Point) : List (Site × Point) :=
  m.faceCenters.zipIdx.map fun (p, i) => (.center i, place p)

/-- The corners of all faces, each with the position of its face. -/
def cornersWithFace (m : Mesh) : List (Nat × Nat × Nat × Nat) :=
  m.faces.zipIdx.flatMap fun (f, i) => f.corners.map fun corner => (i, corner)

/-- The sites inside the edges, one near the beginning of each directed edge. -/
def interiorSites (m : Mesh) : List (Site × Point) :=
  m.cornersWithFace.map fun (_, u, v, _) =>
    (.edge u v, Point.interior (m.position u) (m.position v))

/-- The sites in the middle of the edges, each declared where its edge is run through upwards. -/
def midpointSites (m : Mesh) : List (Site × Point) :=
  m.cornersWithFace.filterMap fun (_, u, v, _) =>
    if u < v then some (.middle u v, Point.midpoint (m.position u) (m.position v)) else none

/-- Builds a design, under a name that shows the operator in front of the old name. -/
@[inline]
def build (m : Mesh) (operator : Text) (design : Design) : Except MeshError Mesh :=
  design.assemble (operator ++ m.name)

/-! ## Ambo -/

/-- The flags of ambo at one corner. -/
def amboFlags (i u v w : Nat) : List (Flag Site Patch) :=
  [⟨.face i, .middle u v, .middle v w⟩, ⟨.vertex v, .middle v w, .middle u v⟩]

@[inline]
def amboDesign (m : Mesh) : Design where
  vertices := m.midpointSites
  flags := m.cornersWithFace.flatMap fun (i, u, v, w) => amboFlags i u v w

/-- The end of an upward edge that has no position, if there is one. -/
def danglingUpwards? (m : Mesh) : Option Nat :=
  m.faces.findSome? fun f => f.corners.findSome? fun (u, v, _) =>
    if u < v ∧ m.vertexCount ≤ v then some v else none

/-- Cuts off every vertex at the midpoints of its edges. -/
def ambo (m : Mesh) : Run Mesh := do
  Run.note (.operatorStarted .ambo m.name)
  match m.danglingUpwards? with
  | some v => Run.fail (.danglingVertex v)
  | none => Run.ofExcept (m.build ['a'] m.amboDesign)

/-! ## Gyro -/

/-- The flags of gyro at one corner: a pentagon for the corner of face `i` at `u`. -/
def gyroFlags (i u v w : Nat) : List (Flag Site Patch) :=
  [⟨.corner i u, .center i, .edge u v⟩,
    ⟨.corner i u, .edge u v, .edge v u⟩,
    ⟨.corner i u, .edge v u, .vertex v⟩,
    ⟨.corner i u, .vertex v, .edge v w⟩,
    ⟨.corner i u, .edge v w, .center i⟩]

@[inline]
def gyroDesign (m : Mesh) : Design where
  vertices := m.vertexSites Point.unitOrSelf ++ m.centerSites Point.unitOrSelf ++ m.interiorSites
  flags := m.cornersWithFace.flatMap fun (i, u, v, w) => gyroFlags i u v w

/-- Divides every face into as many pentagons as it has sides. -/
def gyro (m : Mesh) : Run Mesh := do
  Run.note (.operatorStarted .gyro m.name)
  Run.warn (Warning.forDirections m.vertices.toList)
  Run.ofExcept (m.requirePositions ())
  Run.warn (Warning.forDirections m.faceCenters)
  Run.ofExcept (m.build ['g'] m.gyroDesign)

/-! ## Propellor -/

/-- The flags of propellor at one corner: a side of the turned face and a quadrilateral. -/
def propellorFlags (i u v w : Nat) : List (Flag Site Patch) :=
  [⟨.face i, .edge u v, .edge v w⟩,
    ⟨.corner i v, .edge u v, .edge v u⟩,
    ⟨.corner i v, .edge v u, .vertex v⟩,
    ⟨.corner i v, .vertex v, .edge v w⟩,
    ⟨.corner i v, .edge v w, .edge u v⟩]

@[inline]
def propellorDesign (m : Mesh) : Design where
  vertices := m.vertexSites Point.unitOrSelf ++ m.interiorSites
  flags := m.cornersWithFace.flatMap fun (i, u, v, w) => propellorFlags i u v w

/-- Turns every face inside its outline and surrounds it with quadrilaterals. -/
def propellor (m : Mesh) : Run Mesh := do
  Run.note (.operatorStarted .propellor m.name)
  Run.warn (Warning.forDirections m.vertices.toList)
  Run.ofExcept (m.requirePositions ())
  Run.ofExcept (m.build ['p'] m.propellorDesign)

/-! ## Kis -/

/-- Whether a selector takes a face; no selector and the selector `0` take every face. -/
def selects (sides : Option Nat) (f : Face) : Bool :=
  match sides with
  | none | some 0 => true
  | some n => f.length == n

/-- The flags of kis on the edge from `u` to `v` of face `i`. -/
def kisFlags (selected : Bool) (i u v : Nat) : List (Flag Site Patch) :=
  if selected then
    [⟨.corner i u, .vertex u, .vertex v⟩,
      ⟨.corner i u, .vertex v, .center i⟩,
      ⟨.corner i u, .center i, .vertex u⟩]
  else [⟨.face i, .vertex u, .vertex v⟩]

/-- The flags of kis on all edges of face `i`. -/
def kisFaceFlags (selected : Bool) (i : Nat) (f : Face) : List (Flag Site Patch) :=
  f.edges.flatMap fun (u, v) => kisFlags selected i u v

/-- Only selected faces get a vertex in the middle. -/
@[inline]
def kisDesign (sides : Option Nat) (m : Mesh) : Design where
  vertices :=
    m.vertexSites id ++
      ((m.faces.zip (m.centerSites id)).filter fun (f, _) => selects sides f).map Prod.snd
  flags := m.faces.zipIdx.flatMap fun (f, i) => kisFaceFlags (selects sides f) i f

/-- Raises a pyramid on every selected face; warns if there is none. -/
def kis (sides : Option Nat) (m : Mesh) : Run Mesh := do
  Run.note (.operatorStarted (.kis sides) m.name)
  Run.ofExcept (m.requirePositions ())
  if !m.faces.any (selects sides) then
    Run.warn [.noMatchingFace (sides.getD 0)]
  Run.ofExcept (m.build (Operation.kis sides).text (m.kisDesign sides))

/-! ## Reflection -/

/-- The image under reflection in the centre, under its own name. -/
def reflect (m : Mesh) : Run Mesh := do
  Run.note (.operatorStarted .reflect m.name)
  return { m.inverted with name := 'r' :: m.name }

end Mesh

end Polyhedra
