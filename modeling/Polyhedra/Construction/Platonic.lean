import Polyhedra.Mesh.Basic

/-!
# Platonic solids

The five Platonic solids as tables, with coordinates to three or more decimal
places. The middle of every edge lies at distance one from the centre, as nearly
as the coordinates allow.
-/

namespace Polyhedra.Mesh

def tetrahedron : Mesh where
  name := ['T']
  faces := [[0, 1, 2], [0, 2, 3], [0, 3, 1], [1, 3, 2]]
  vertices := #[⟨1.0, 1.0, 1.0⟩, ⟨1.0, -1.0, -1.0⟩, ⟨-1.0, 1.0, -1.0⟩, ⟨-1.0, -1.0, 1.0⟩]

def octahedron : Mesh where
  name := ['O']
  faces :=
    [[0, 1, 2], [0, 2, 3], [0, 3, 4], [0, 4, 1], [1, 4, 5], [1, 5, 2], [2, 5, 3], [3, 5, 4]]
  vertices :=
    #[⟨0.0, 0.0, 1.414⟩, ⟨1.414, 0.0, 0.0⟩, ⟨0.0, 1.414, 0.0⟩, ⟨-1.414, 0.0, 0.0⟩,
      ⟨0.0, -1.414, 0.0⟩, ⟨0.0, 0.0, -1.414⟩]

def cube : Mesh where
  name := ['C']
  faces :=
    [[3, 0, 1, 2], [3, 4, 5, 0], [0, 5, 6, 1], [1, 6, 7, 2], [2, 7, 4, 3], [5, 4, 7, 6]]
  vertices :=
    #[⟨0.707, 0.707, 0.707⟩, ⟨-0.707, 0.707, 0.707⟩, ⟨-0.707, -0.707, 0.707⟩,
      ⟨0.707, -0.707, 0.707⟩, ⟨0.707, -0.707, -0.707⟩, ⟨0.707, 0.707, -0.707⟩,
      ⟨-0.707, 0.707, -0.707⟩, ⟨-0.707, -0.707, -0.707⟩]

def icosahedron : Mesh where
  name := ['I']
  faces :=
    [[0, 1, 2], [0, 2, 3], [0, 3, 4], [0, 4, 5], [0, 5, 1],
      [1, 5, 7], [1, 7, 6], [1, 6, 2], [2, 6, 8], [2, 8, 3],
      [3, 8, 9], [3, 9, 4], [4, 9, 10], [4, 10, 5], [5, 10, 7],
      [6, 7, 11], [6, 11, 8], [7, 10, 11], [8, 11, 9], [9, 11, 10]]
  vertices :=
    #[⟨0.0, 0.0, 1.176⟩, ⟨1.051, 0.0, 0.526⟩, ⟨0.324, 1.0, 0.525⟩, ⟨-0.851, 0.618, 0.526⟩,
      ⟨-0.851, -0.618, 0.526⟩, ⟨0.325, -1.0, 0.526⟩, ⟨0.851, 0.618, -0.526⟩,
      ⟨0.851, -0.618, -0.526⟩, ⟨-0.325, 1.0, -0.526⟩, ⟨-1.051, 0.0, -0.526⟩,
      ⟨-0.325, -1.0, -0.526⟩, ⟨0.0, 0.0, -1.176⟩]

def dodecahedron : Mesh where
  name := ['D']
  faces :=
    [[0, 1, 4, 7, 2], [0, 2, 6, 9, 3], [0, 3, 8, 5, 1], [1, 5, 11, 10, 4],
      [2, 7, 13, 12, 6], [3, 9, 15, 14, 8], [4, 10, 16, 13, 7], [5, 8, 14, 17, 11],
      [6, 12, 18, 15, 9], [10, 11, 17, 19, 16], [12, 13, 16, 19, 18], [14, 15, 18, 19, 17]]
  vertices :=
    #[⟨0.0, 0.0, 1.07047⟩, ⟨0.713644, 0.0, 0.797878⟩, ⟨-0.356822, 0.618, 0.797878⟩,
      ⟨-0.356822, -0.618, 0.797878⟩, ⟨0.797878, 0.618034, 0.356822⟩,
      ⟨0.797878, -0.618, 0.356822⟩, ⟨-0.934172, 0.381966, 0.356822⟩,
      ⟨0.136294, 1.0, 0.356822⟩, ⟨0.136294, -1.0, 0.356822⟩,
      ⟨-0.934172, -0.381966, 0.356822⟩, ⟨0.934172, 0.381966, -0.356822⟩,
      ⟨0.934172, -0.381966, -0.356822⟩, ⟨-0.797878, 0.618, -0.356822⟩,
      ⟨-0.136294, 1.0, -0.356822⟩, ⟨-0.136294, -1.0, -0.356822⟩,
      ⟨-0.797878, -0.618034, -0.356822⟩, ⟨0.356822, 0.618, -0.797878⟩,
      ⟨0.356822, -0.618, -0.797878⟩, ⟨-0.713644, 0.0, -0.797878⟩, ⟨0.0, 0.0, -1.07047⟩]

end Polyhedra.Mesh
