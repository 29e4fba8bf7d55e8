import Polyhedra.Mesh.Surface
import Polyhedra.Proofs.Construction.Census
import Polyhedra.Proofs.Construction.Relaxation
import Polyhedra.Proofs.Notation.Confluence
import Polyhedra.Proofs.Notation.DegenerateSeeds
import Polyhedra.Proofs.Notation.Places
import Polyhedra.Proofs.Notation.Progress
import Polyhedra.Proofs.Session.Advice
import Polyhedra.Proofs.Session.Duality
import Polyhedra.Proofs.Session.Failures
import Polyhedra.Proofs.Session.Independence
import Polyhedra.Proofs.Session.Reuse
import Polyhedra.Proofs.Session.Soundness
import Polyhedra.Proofs.Surface.Blades
import Polyhedra.Proofs.Surface.Boundary
import Polyhedra.Proofs.Surface.Chirality
import Polyhedra.Proofs.Surface.Involution
import Polyhedra.Proofs.Surface.Leftovers
import Polyhedra.Proofs.Surface.Orbits
import Polyhedra.Proofs.Surface.Overrides
import Polyhedra.Proofs.Surface.Ownership
import Polyhedra.Proofs.Surface.Pentagons
import Polyhedra.Proofs.Surface.Pyramids
import Polyhedra.Proofs.Surface.Rectification
import Polyhedra.Proofs.Surface.Reflection
import Polyhedra.Proofs.Surface.Validity
import Polyhedra.Session
import Polyhedra.Proofs.Session.Warnings
