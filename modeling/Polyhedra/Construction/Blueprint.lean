import Polyhedra.Construction.Labelled
import Polyhedra.Mesh.Basic

/-!
# Blueprints

A solid is described before it is built: its vertices by labels with positions,
its faces by flags, each of which says that in the face with a certain label
one vertex is followed by another. Labels are whatever is convenient for the
construction at hand.

`Blueprint.assemble` numbers the vertices in the order in which their labels
first appear, and the faces likewise, and follows the flags of each face once
around:

* of several positions of one label the first one counts;
* of several flags that leave one vertex of one face the last one counts;
* a face begins with the vertex to which its first flag leads.

A blueprint with more than `maxVertices` vertices or `maxFaces` faces is refused
before any face is followed. The topology of the outcome depends on the labels and the flags alone
(`Blueprint.faces`), never on the positions.
-/

namespace Polyhedra

/-- In the face labelled `face`, the vertex `source` is followed by `target`. -/
structure Flag (V F : Type) where
  face : F
  source : V
  target : V
  deriving DecidableEq

/-- Vertices and flags, in the order in which they were declared. -/
structure Blueprint (V F : Type) where
  vertices : List (V × Point) := []
  flags : List (Flag V F) := []

namespace Blueprint

variable {V F : Type}

def addVertex (b : Blueprint V F) (label : V) (position : Point) : Blueprint V F :=
  { b with vertices := b.vertices ++ [(label, position)] }

def addFlag (b : Blueprint V F) (face : F) (source target : V) : Blueprint V F :=
  { b with flags := b.flags ++ [⟨face, source, target⟩] }

/-! ## Vertices -/

section Vertices

variable [BEq V] [Hashable V]

/-- The vertices that count: each label once, with its first position. -/
@[inline]
def distinctVertices (b : Blueprint V F) : List (V × Point) := firstByLabel ∅ b.vertices

/-- The labels of the vertices, in the order in which they first appear. -/
@[inline]
def labels (b : Blueprint V F) : List V := b.distinctVertices.map Prod.fst

@[inline]
def vertexCount (b : Blueprint V F) : Nat := b.distinctVertices.length

/-- The positions in order. -/
@[inline]
def positions (b : Blueprint V F) : Array Point := (b.distinctVertices.map Prod.snd).toArray

/-- The number of each vertex label. -/
@[inline]
def numbering (b : Blueprint V F) : Std.HashMap V Nat := lastByLabel b.labels.zipIdx

theorem size_positions (b : Blueprint V F) : b.positions.size = b.vertexCount := by
  simp [positions, vertexCount]

theorem length_labels (b : Blueprint V F) : b.labels.length = b.vertexCount := by
  simp [labels, vertexCount]

variable [LawfulBEq V]

theorem labels_nodup (b : Blueprint V F) : b.labels.Nodup :=
  nodup_keys_firstByLabel ∅ b.vertices

theorem mem_labels {b : Blueprint V F} {v : V} :
    v ∈ b.labels ↔ v ∈ b.vertices.map Prod.fst := by
  rw [labels, distinctVertices, mem_keys_firstByLabel]
  simp

/-- A vertex has the number of the place at which its label first appears. -/
theorem getElem?_numbering (b : Blueprint V F) (v : V) (i : Nat) :
    b.numbering[v]? = some i ↔ b.labels[i]? = some v := by
  have hnodup : (b.labels.zipIdx.map Prod.fst).Nodup := by
    rw [List.zipIdx_map_fst]
    exact b.labels_nodup
  rw [numbering, getElem?_lastByLabel_eq_some_iff hnodup, List.mem_zipIdx_iff_getElem?]

end Vertices

/-! ## Faces -/

section Faces

variable [BEq F] [Hashable F]

/-- The faces that count: each label once, with the vertex to which its first flag leads. -/
@[inline]
def entries (b : Blueprint V F) : List (F × V) :=
  firstByLabel ∅ (b.flags.map fun flag => (flag.face, flag.target))

@[inline]
def faceCount (b : Blueprint V F) : Nat := b.entries.length

variable [BEq V] [Hashable V]

/-- For each face label, the vertex that follows each vertex. -/
@[inline]
def successors (b : Blueprint V F) : Std.HashMap F (Std.HashMap V V) :=
  b.flags.foldl (fun table flag =>
    table.alter flag.face fun next? => some ((next?.getD ∅).insert flag.source flag.target)) ∅

/--
The numbers of the vertices from `v` on, until the successor of one of them is
`entry`. At most `fuel` more steps are made after the first; `steps` is what is
reported when they do not suffice.
-/
def follow (numbering : Std.HashMap V Nat) (next : Std.HashMap V V) (face steps : Nat)
    (entry : V) : Nat → V → Except MeshError Face
  | fuel, v =>
    match numbering[v]? with
    | none => .error (.undeclaredVertex face)
    | some i =>
      match next[v]? with
      | none => .error (.missingFlag face)
      | some w =>
        if w == entry then .ok [i]
        else
          match fuel with
          | 0 => .error (.openFace face steps)
          | fuel + 1 =>
            (follow numbering next face steps entry fuel w).map (i :: ·)

/-- The face that starts at `entry`: as many steps are made as it has different sources. -/
def assembleFace (numbering : Std.HashMap V Nat) (next : Std.HashMap V V) (face : Nat)
    (entry : V) : Except MeshError Face :=
  follow numbering next face next.size entry (next.size - 1) entry

/-- What the blueprint has too many of, if anything. -/
@[inline]
def sizeFault? (b : Blueprint V F) : Option MeshError := oversize? b.vertexCount b.faceCount

/-- The faces in order, as numbers of vertices, however many there are. -/
@[inline]
def assembleFaces (b : Blueprint V F) : Except MeshError (List Face) :=
  let numbering := b.numbering
  let successors := b.successors
  b.entries.zipIdx.mapM fun ((label, entry), face) =>
    assembleFace numbering (successors.getD label ∅) face entry

/-- The faces in order; a blueprint that is too large is refused before any face is followed. -/
@[inline]
def faces (b : Blueprint V F) : Except MeshError (List Face) :=
  match b.sizeFault? with
  | some e => .error e
  | none => b.assembleFaces

/-- Builds the solid. -/
@[inline]
def assemble (b : Blueprint V F) (name : Text) : Except MeshError Mesh :=
  b.faces.map fun faces => ⟨name, faces, b.positions⟩

/-- The faces of a blueprint that is not too large are followed. -/
theorem faces_eq_assembleFaces {b : Blueprint V F} (h : b.sizeFault? = none) :
    b.faces = b.assembleFaces := by
  rw [faces, h]

/-- A blueprint that is too large is refused. -/
theorem faces_eq_error_of_sizeFault? {b : Blueprint V F} {err : MeshError}
    (h : b.sizeFault? = some err) : b.faces = .error err := by
  rw [faces, h]

theorem faces_eq_ok_iff_assembleFaces {b : Blueprint V F} {fs : List Face} :
    b.faces = .ok fs ↔ b.sizeFault? = none ∧ b.assembleFaces = .ok fs := by
  cases h : b.sizeFault? with
  | none => simp [faces_eq_assembleFaces h]
  | some err => simp [faces_eq_error_of_sizeFault? h]

theorem faces_eq_error_iff_assembleFaces {b : Blueprint V F} {err : MeshError} :
    b.faces = .error err ↔
      b.sizeFault? = some err ∨ b.sizeFault? = none ∧ b.assembleFaces = .error err := by
  cases h : b.sizeFault? with
  | none => simp [faces_eq_assembleFaces h]
  | some err => simp [faces_eq_error_of_sizeFault? h]

theorem assemble_eq_error_of_sizeFault? {b : Blueprint V F} {err : MeshError}
    (h : b.sizeFault? = some err) (name : Text) : b.assemble name = .error err := by
  rw [assemble, faces_eq_error_of_sizeFault? h]
  rfl

variable [LawfulBEq V] [LawfulBEq F]

/-- Of the flags that leave one vertex of one face the last one counts. -/
theorem getElem?_successors (b : Blueprint V F) (face : F) (v : V) :
    (b.successors.getD face ∅)[v]? =
      b.flags.reverse.findSome? fun flag =>
        if flag.face == face && flag.source == v then some flag.target else none := by
  suffices h : ∀ (flags : List (Flag V F)) (table : Std.HashMap F (Std.HashMap V V)),
      ((flags.foldl (fun table flag =>
        table.alter flag.face fun next? =>
          some ((next?.getD ∅).insert flag.source flag.target)) table).getD face ∅)[v]? =
        (flags.reverse.findSome? fun flag =>
          if flag.face == face && flag.source == v then some flag.target else none).or
          (table.getD face ∅)[v]? by
    rw [successors, h]
    simp
  intro flags
  induction flags with
  | nil => simp
  | cons flag rest ih =>
    intro table
    rw [List.foldl_cons, ih, Std.HashMap.getD_alter, List.reverse_cons, List.findSome?_append,
      Option.or_assoc]
    congr 1
    by_cases hf : flag.face = face
    · subst hf
      by_cases hv : flag.source = v
      · simp [hv]
      · simp [hv, Std.HashMap.getD_eq_getD_getElem?, Std.HashMap.getElem?_insert]
    · simp [hf]

end Faces

end Blueprint

end Polyhedra
