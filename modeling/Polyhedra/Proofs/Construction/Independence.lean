import Polyhedra.Proofs.Surface.Designs

/-!
# Topology does not depend on geometry

Two meshes that differ in their positions at most (`Mesh.Alike`) are treated
alike: an operation fails on both with the same fault, or makes of them what again
differs in positions at most, and so do the duals.

The names, the faces and the number of vertices of a mesh are its `topology`, and
what is shown of a construction that may fail is the topology of its outcome.  A
construction in several steps shows the same if each step does
(`Except.map_bind_congr`); the steps are the blueprint, whose labels and flags
come from the topology of the old mesh, and the relaxation, which asks for
positions but does not look at them when it decides whether to fail.

## Main results

* `Blueprint.Alike.assemble` — the topology of what is assembled comes from labels and flags.
* `Relaxation.relax_alike` — relaxation keeps topology apart from geometry.
* `Operation.apply_alike` — so does each operation.
-/

namespace Polyhedra

/-! ## Topologies -/

/-- All of a mesh but the positions of its vertices. -/
structure Topology where
  name : Text
  faces : List Face
  vertexCount : Nat
  deriving DecidableEq

def Mesh.topology (m : Mesh) : Topology := ⟨m.name, m.faces, m.vertexCount⟩

/-- The topology of both sides. -/
def DualPair.topology (p : DualPair) : Topology × Topology := (p.solid.topology, p.dual.topology)

theorem Mesh.topology_eq_iff {m m' : Mesh} : m.topology = m'.topology ↔ m.Alike m' := by
  rw [topology, topology, Topology.mk.injEq]
  exact ⟨fun ⟨hname, hfaces, hcount⟩ => ⟨hname, hfaces, hcount⟩,
    fun h => ⟨h.name, h.faces, h.vertexCount⟩⟩

theorem DualPair.topology_eq_iff {p p' : DualPair} :
    p.topology = p'.topology ↔ p.solid.Alike p'.solid ∧ p.dual.Alike p'.dual := by
  rw [topology, topology, Prod.mk.injEq, Mesh.topology_eq_iff, Mesh.topology_eq_iff]

theorem Mesh.Alike.symm {m m' : Mesh} (h : m.Alike m') : m'.Alike m :=
  ⟨h.name.symm, h.faces.symm, h.vertexCount.symm⟩

section Except

variable {ε α β γ δ : Type}

/-- Either both fail with the same fault, or both succeed and show the same. -/
theorem Except.map_eq_map_iff {x x' : Except ε α} {p : α → γ} :
    x.map p = x'.map p ↔
      (∃ e, x = .error e ∧ x' = .error e) ∨ ∃ a a', x = .ok a ∧ x' = .ok a' ∧ p a = p a' := by
  cases x <;> cases x' <;> simp [Except.map, eq_comm]

/-- What is shown of two steps is the same if it is the same for each of them. -/
theorem Except.map_bind_congr {x x' : Except ε α} {f f' : α → Except ε β} {p : α → γ} {q : β → δ}
    (hx : x.map p = x'.map p) (hf : ∀ a a', p a = p a' → (f a).map q = (f' a').map q) :
    (x.bind f).map q = (x'.bind f').map q := by
  rcases Except.map_eq_map_iff.1 hx with ⟨e, rfl, rfl⟩ | ⟨a, a', rfl, rfl, hsame⟩
  · rfl
  · exact hf a a' hsame

end Except

/-! ## Blueprints -/

theorem keys_firstByLabel_congr {K A : Type} [BEq K] [Hashable K] {seen : Std.HashSet K}
    {l l' : List (K × A)} (h : l.map Prod.fst = l'.map Prod.fst) :
    (firstByLabel seen l).map Prod.fst = (firstByLabel seen l').map Prod.fst := by
  induction l generalizing seen l' with
  | nil => rw [List.map_eq_nil_iff.1 h.symm]
  | cons entry l ih =>
    obtain ⟨entry', l', rfl⟩ := List.exists_cons_of_ne_nil (l := l') (by rintro rfl; simp at h)
    obtain ⟨k, a⟩ := entry
    obtain ⟨k', a'⟩ := entry'
    obtain ⟨hk, hl⟩ := List.cons.inj h
    have hk : k = k' := hk
    subst hk
    rw [firstByLabel_cons, firstByLabel_cons]
    split
    · exact ih hl
    · rw [List.map_cons, List.map_cons, ih hl]

namespace Blueprint

variable {V F : Type}

/-- The blueprints differ in positions at most. -/
structure Alike (b b' : Blueprint V F) : Prop where
  keys : b.vertices.map Prod.fst = b'.vertices.map Prod.fst
  flags : b.flags = b'.flags

namespace Alike

variable [BEq V] [Hashable V] [BEq F] [Hashable F] {b b' : Blueprint V F} (h : b.Alike b')
include h

omit [BEq F] [Hashable F] in
theorem labels : b.labels = b'.labels := keys_firstByLabel_congr h.keys

omit [BEq F] [Hashable F] in
theorem vertexCount : b.vertexCount = b'.vertexCount := by
  rw [← length_labels, ← length_labels, h.labels]

theorem faces : b.faces = b'.faces := by
  unfold Blueprint.faces sizeFault? faceCount assembleFaces entries numbering successors
  rw [h.labels, h.vertexCount, h.flags]

theorem assemble (name : Text) :
    (b.assemble name).map Mesh.topology = (b'.assemble name).map Mesh.topology := by
  have hcount : b.positions.size = b'.positions.size := by
    rw [b.size_positions, b'.size_positions, h.vertexCount]
  unfold Blueprint.assemble
  rw [h.faces]
  cases b'.faces with
  | error e => rfl
  | ok faces => exact congrArg Except.ok (congrArg (Topology.mk name faces) hcount)

end Alike

end Blueprint

/-! ## Operators -/

namespace Mesh.Alike

variable {m m' : Mesh} (h : m.Alike m')
include h

theorem faceCount : m.faceCount = m'.faceCount := congrArg List.length h.faces

/-- The dual has no positions of its own yet. -/
theorem dual : m.dual = m'.dual := by
  unfold Mesh.dual
  rw [h.faces, h.vertexCount, h.name, h.faceCount]

theorem danglingVertex? : m.danglingVertex? = m'.danglingVertex? := by
  unfold Mesh.danglingVertex?
  rw [h.faces, h.vertexCount]

theorem requirePositions {α : Type} (a : α) : m.requirePositions a = m'.requirePositions a := by
  unfold Mesh.requirePositions
  rw [h.danglingVertex?]

theorem cornersWithFace : m.cornersWithFace = m'.cornersWithFace := by
  unfold Mesh.cornersWithFace
  rw [h.faces]

theorem danglingUpwards? : m.danglingUpwards? = m'.danglingUpwards? := by
  unfold Mesh.danglingUpwards?
  rw [h.faces, h.vertexCount]

theorem keys_vertexSites (place : Point → Point) :
    (m.vertexSites place).map Prod.fst = (m'.vertexSites place).map Prod.fst := by
  rw [Mesh.keys_vertexSites, Mesh.keys_vertexSites, h.vertexCount]

theorem keys_centerSites (place : Point → Point) :
    (m.centerSites place).map Prod.fst = (m'.centerSites place).map Prod.fst := by
  rw [Mesh.keys_centerSites, Mesh.keys_centerSites, h.faceCount]

theorem keys_interiorSites :
    m.interiorSites.map Prod.fst = m'.interiorSites.map Prod.fst := by
  rw [Mesh.keys_interiorSites, Mesh.keys_interiorSites, h.cornersWithFace]

theorem amboDesign : m.amboDesign.Alike m'.amboDesign where
  keys := by
    have hkey : ∀ m : Mesh, m.amboDesign.vertices.map Prod.fst =
        m.cornersWithFace.filterMap fun c =>
          if c.2.1 < c.2.2.1 then some (Site.middle c.2.1 c.2.2.1) else none := by
      intro m
      rw [Mesh.amboDesign, midpointSites, List.map_filterMap]
      refine congrArg (List.filterMap · _) (funext fun c => ?_)
      by_cases hlt : c.2.1 < c.2.2.1 <;> simp [hlt]
    rw [hkey, hkey, h.cornersWithFace]
  flags := by rw [Mesh.amboDesign, Mesh.amboDesign, h.cornersWithFace]

theorem gyroDesign : m.gyroDesign.Alike m'.gyroDesign where
  keys := by
    simp only [Mesh.gyroDesign, List.map_append, h.keys_vertexSites, h.keys_centerSites,
      h.keys_interiorSites]
  flags := by rw [Mesh.gyroDesign, Mesh.gyroDesign, h.cornersWithFace]

theorem propellorDesign : m.propellorDesign.Alike m'.propellorDesign where
  keys := by
    simp only [Mesh.propellorDesign, List.map_append, h.keys_vertexSites, h.keys_interiorSites]
  flags := by rw [Mesh.propellorDesign, Mesh.propellorDesign, h.cornersWithFace]

theorem kisDesign (sides : Option Nat) : (m.kisDesign sides).Alike (m'.kisDesign sides) where
  keys := by
    have hkeys : ∀ m : Mesh, (m.kisDesign sides).vertices.map Prod.fst =
        (m.vertexSites id).map Prod.fst ++
          ((m.faces.zip ((m.centerSites id).map Prod.fst)).filter fun (f, _) =>
            selects sides f).map Prod.snd := by
      intro m
      rw [Mesh.kisDesign, List.map_append, List.zip_map_right, List.filter_map, List.map_map,
        List.map_map]
      rfl
    rw [hkeys, hkeys, h.keys_vertexSites, h.keys_centerSites, h.faces]
  flags := by rw [Mesh.kisDesign, Mesh.kisDesign, h.faces]

theorem build (operator : Text) {design design' : Design} (hdesign : design.Alike design') :
    (m.build operator design).map topology = (m'.build operator design').map topology := by
  unfold Mesh.build
  rw [h.name]
  exact hdesign.assemble _

end Mesh.Alike

/-- An operation makes of meshes that are alike what is alike, or fails on both. -/
theorem Operation.transform_alike (op : Operation) {m m' : Mesh} (h : m.Alike m') :
    (op.transform m).map Mesh.topology = (op.transform m').map Mesh.topology := by
  have positioned : ∀ (operator : Text) {design design' : Design}, design.Alike design' →
      ((m.requirePositions ()).bind fun _ => m.build operator design).map Mesh.topology =
        ((m'.requirePositions ()).bind fun _ => m'.build operator design').map Mesh.topology := by
    intro operator design design' hdesign
    rw [h.requirePositions]
    cases m'.requirePositions () with
    | error e => rfl
    | ok u => exact h.build operator hdesign
  cases op with
  | kis sides => exact positioned _ (h.kisDesign sides)
  | gyro => exact positioned _ h.gyroDesign
  | propellor => exact positioned _ h.propellorDesign
  | ambo =>
    rw [transform, transform, h.danglingUpwards?]
    split
    · rfl
    · exact h.build _ h.amboDesign
  | reflect =>
    refine congrArg Except.ok (Mesh.topology_eq_iff.2 ⟨?_, ?_, ?_⟩)
    · exact congrArg ('r' :: ·) h.name
    · exact congrArg (List.map List.reverse) h.faces
    · simpa [Mesh.inverted, Mesh.vertexCount] using h.vertexCount
  | canonicalize =>
    exact congrArg Except.ok
      (Mesh.topology_eq_iff.2 ⟨congrArg ('c' :: ·) h.name, h.faces, h.vertexCount⟩)
  | dual => rw [transform, transform, h.name]

/-! ## Relaxation -/

namespace Relaxation

variable {rule rule' : Relaxation} {count count' : Nat} {m m' : Mesh}

/-- What is relaxed at all has the topology of the mesh and of its dual, whatever the passes. -/
theorem topology_eq_of_relaxed (h : m.Alike m') {p p' : DualPair}
    (hp : (rule.relax count m).outcome = .ok p)
    (hp' : (rule'.relax count' m').outcome = .ok p') : p.topology = p'.topology := by
  obtain ⟨dual, hdual, hsolid, hduals⟩ := exists_dual hp
  obtain ⟨dual', hdual', hsolid', hduals'⟩ := exists_dual hp'
  rw [h.dual, hdual'] at hdual
  obtain rfl := Except.ok.inj hdual
  exact DualPair.topology_eq_iff.2
    ⟨(hsolid.trans h).trans hsolid'.symm, hduals.trans hduals'.symm⟩

/-- Whether there is a pair to start from does not depend on positions. -/
theorem start_alike (count : Nat) (h : m.Alike m') (dual : Mesh) :
    ((start count m dual).map fun _ => ()) = (start count m' dual).map fun _ => () := by
  unfold start
  split
  · rfl
  · unfold Mesh.requirePositions
    rw [h.danglingVertex?]
    split <;> rfl

theorem relax_alike (h : m.Alike m') :
    (rule.relax count m).outcome.map DualPair.topology =
      (rule.relax count m').outcome.map DualPair.topology := by
  have hends : ((rule.relax count m).outcome.map fun _ => ()) =
      (rule.relax count m').outcome.map fun _ => () := by
    rw [outcome_relax, outcome_relax, h.dual]
    cases m'.dual with
    | error e => rfl
    | ok dual =>
      rcases Except.map_eq_map_iff.1 (start_alike count h dual) with
        ⟨e, he, he'⟩ | ⟨q, q', hq, hq', -⟩
      · simp only [Except.bind, he, he']
      · simp only [Except.bind, hq, hq', Except.map]
  rcases Except.map_eq_map_iff.1 hends with ⟨e, he, he'⟩ | ⟨p, p', hp, hp', -⟩
  · rw [he, he']
  · rw [hp, hp']
    exact congrArg Except.ok (topology_eq_of_relaxed h hp hp')

end Relaxation

namespace Operation

variable (op : Operation) {settings settings' : Settings} {m m' : Mesh} (h : m.Alike m')
include h

/-- Where an operation succeeds on meshes that are alike, the settings do not show either. -/
theorem topology_eq_of_applied {p p' : DualPair} (hp : (op.apply settings m).outcome = .ok p)
    (hp' : (op.apply settings' m').outcome = .ok p') : p.topology = p'.topology := by
  rw [outcome_apply] at hp hp'
  obtain ⟨t, ht, hp⟩ := Except.bind_eq_ok.1 hp
  obtain ⟨t', ht', hp'⟩ := Except.bind_eq_ok.1 hp'
  have hsame := op.transform_alike h
  rw [ht, ht'] at hsame
  exact Relaxation.topology_eq_of_relaxed
    (Mesh.topology_eq_iff.1 (Except.ok.inj hsame)) hp hp'

/-- Applying an operation to meshes that are alike ends in pairs that are alike, or in a fault. -/
theorem apply_alike (settings : Settings) :
    (op.apply settings m).outcome.map DualPair.topology =
      (op.apply settings m').outcome.map DualPair.topology := by
  rw [outcome_apply, outcome_apply]
  exact Except.map_bind_congr (op.transform_alike h) fun _ _ hsame =>
    Relaxation.relax_alike (Mesh.topology_eq_iff.1 hsame)

end Operation

end Polyhedra
