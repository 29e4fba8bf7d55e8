import Polyhedra.Construction.Family
import Polyhedra.Construction.Operator
import Polyhedra.Construction.Platonic
import Polyhedra.Mesh.Relaxation
import Polyhedra.Settings

/-!
# Building seeds and applying operations

Every construction but that of a Platonic solid is followed by a relaxation,
which also provides the dual. A Platonic solid is taken from its table as it
stands, and has no dual yet.
-/

namespace Polyhedra

/-- A solid, perhaps with its dual. -/
structure Solid where
  mesh : Mesh
  dual : Option Mesh

namespace Solid

def ofPair (p : DualPair) : Solid := ⟨p.solid, some p.dual⟩

/-- The pair of the solid and its dual, if there is one. -/
def pair? (s : Solid) : Option DualPair := s.dual.map fun dual => ⟨s.mesh, dual⟩

end Solid

namespace Seed

/-- The seed in its final shape. -/
def build (settings : Settings) (seed : Seed) : Run Solid := do
  Run.note (.seedStarted seed)
  match seed with
  | tetrahedron => return ⟨Mesh.tetrahedron, none⟩
  | octahedron => return ⟨Mesh.octahedron, none⟩
  | cube => return ⟨Mesh.cube, none⟩
  | icosahedron => return ⟨Mesh.icosahedron, none⟩
  | dodecahedron => return ⟨Mesh.dodecahedron, none⟩
  | prism n => Solid.ofPair <$> Relaxation.planar.relax settings.prism (Mesh.prism n)
  | antiprism n => Solid.ofPair <$> Relaxation.planar.relax settings.prism (Mesh.antiprism n)
  | pyramid n => Solid.ofPair <$> Relaxation.canonical.relax settings.pyramid (Mesh.pyramid n)

end Seed

namespace Operation

/-- Applies an operation that makes a new solid. The dual is not one of them. -/
def apply (settings : Settings) (op : Operation) (m : Mesh) : Run DualPair :=
  match op with
  | kis sides => do Relaxation.planar.relax settings.kis (← m.kis sides)
  | ambo => do Relaxation.planar.relax settings.ambo (← m.ambo)
  | gyro => do Relaxation.planar.relax settings.gyro (← m.gyro)
  | propellor => do Relaxation.planar.relax settings.propellor (← m.propellor)
  | reflect => do Relaxation.planar.relax settings.reflect (← m.reflect)
  | canonicalize =>
    Relaxation.canonical.relax settings.canonicalize { m with name := 'c' :: m.name }
  | dual => Run.fail (.dualNotMaterialized m.name)

end Operation

end Polyhedra
