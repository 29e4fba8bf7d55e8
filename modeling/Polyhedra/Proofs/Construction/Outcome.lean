import Polyhedra.Construction.Build
import Mathlib.Data.List.Forall2

/-!
# Outcomes

What a construction ends in, apart from its journal.  The journal never decides
anything, so the outcome of several constructions in a row is that of their
outcomes in a row (`outcome_bind`).

Relaxation moves positions only: the solid keeps its name, its faces and the
number of its vertices, and so does the dual once it has been made
(`Relaxation.exists_dual`, with `Mesh.Alike` for what is kept).  An operation
other than the dual transforms a mesh and relaxes what it gets, and a seed is a
mesh that is relaxed or taken as it stands.

## Main results

* `Run.outcome_bind` — outcomes compose.
* `Mesh.dual_eq_ok` — the dual has a face for each vertex and a vertex for each
  face.
* `Relaxation.exists_dual`, `Relaxation.exists_relaxed` — what relaxation yields,
  and when.
* `Operation.outcome_apply` — what an operation yields.
* `Seed.outcome_build` — what a seed is built to.
-/

namespace Polyhedra

/-! ## Sequences of computations -/

section Except

variable {α β ε : Type}

theorem Except.bind_eq_ok {x : Except ε α} {f : α → Except ε β} {b : β} :
    x.bind f = .ok b ↔ ∃ a, x = .ok a ∧ f a = .ok b := by
  cases x <;> simp [Except.bind]

theorem Except.map_eq_ok {x : Except ε α} {f : α → β} {b : β} :
    x.map f = .ok b ↔ ∃ a, x = .ok a ∧ f a = b := by
  cases x <;> simp [Except.map]

theorem Except.map_eq_error {x : Except ε α} {f : α → β} {e : ε} :
    x.map f = .error e ↔ x = .error e := by
  cases x <;> simp [Except.map]

theorem Except.bind_eq_error {x : Except ε α} {f : α → Except ε β} {e : ε} :
    x.bind f = .error e ↔ x = .error e ∨ ∃ a, x = .ok a ∧ f a = .error e := by
  cases x <;> simp [Except.bind]

/-- Running through a list succeeds if every entry does. -/
theorem mapM_eq_ok_iff {f : α → Except ε β} {l : List α} {bs : List β} :
    l.mapM f = .ok bs ↔ List.Forall₂ (fun a b => f a = .ok b) l bs := by
  induction l generalizing bs with
  | nil => cases bs <;> simp [pure, Except.pure]
  | cons a l ih =>
    rw [List.mapM_cons]
    cases bs with
    | nil => cases f a <;> cases l.mapM f <;> simp [bind, Except.bind, pure, Except.pure]
    | cons b bs =>
      rw [List.forall₂_cons, ← ih]
      cases f a <;> cases l.mapM f <;> simp [bind, Except.bind, pure, Except.pure]

theorem mapM_eq_ok_map {f : α → Except ε β} {g : α → β} {l : List α}
    (h : ∀ a ∈ l, f a = .ok (g a)) : l.mapM f = .ok (l.map g) :=
  mapM_eq_ok_iff.2 (List.forall₂_map_right_iff.2 (List.forall₂_same.2 h))

/-- Running through a list fails with an entry that fails after none that does. -/
theorem mapM_eq_error_iff {f : α → Except ε β} {l : List α} {e : ε} :
    l.mapM f = .error e ↔
      ∃ k a, l[k]? = some a ∧ f a = .error e ∧ ∀ c ∈ l.take k, ∃ b, f c = .ok b := by
  induction l with
  | nil => simp [pure, Except.pure]
  | cons a l ih =>
    rw [List.mapM_cons]
    cases ha : f a with
    | error e' =>
      constructor
      · intro h
        obtain rfl := Except.error.inj h
        exact ⟨0, a, rfl, ha, by simp⟩
      · rintro ⟨k, c, hk, hc, hbefore⟩
        cases k with
        | zero =>
          obtain rfl := Option.some.inj hk
          obtain rfl := Except.error.inj (ha.symm.trans hc)
          rfl
        | succ k =>
          obtain ⟨b, hb⟩ := hbefore a (by simp)
          rw [ha] at hb
          simp at hb
    | ok b =>
      have hrest : (do let b ← Except.ok b; let bs ← l.mapM f; pure (b :: bs)) =
          (.error e : Except ε (List β)) ↔ l.mapM f = .error e := by
        cases l.mapM f <;> simp [bind, Except.bind, pure, Except.pure]
      rw [hrest, ih]
      constructor
      · rintro ⟨k, c, hk, hc, hbefore⟩
        exact ⟨k + 1, c, hk, hc, List.forall_mem_cons.2 ⟨⟨b, ha⟩, hbefore⟩⟩
      · rintro ⟨k, c, hk, hc, hbefore⟩
        cases k with
        | zero =>
          obtain rfl := Option.some.inj hk
          rw [ha] at hc
          simp at hc
        | succ k => exact ⟨k, c, hk, hc, (List.forall_mem_cons.1 hbefore).2⟩

/-- Running through a list fails where some entry fails. -/
theorem exists_of_mapM_eq_error {f : α → Except ε β} {l : List α} {e : ε}
    (h : l.mapM f = .error e) : ∃ a ∈ l, f a = .error e := by
  obtain ⟨k, a, hk, ha, -⟩ := mapM_eq_error_iff.1 h
  exact ⟨a, List.mem_of_getElem? hk, ha⟩

/-- Running through a list fails at the first entry that fails. -/
theorem mapM_eq_error_iff_find? {f : α → Except ε β} (fails : α → Bool) (error : α → ε)
    (hok : ∀ a, fails a = false → ∃ b, f a = .ok b)
    (herror : ∀ a, fails a = true → f a = .error (error a)) {l : List α} {e : ε} :
    l.mapM f = .error e ↔ ∃ a, l.find? fails = some a ∧ error a = e := by
  induction l with
  | nil => simp [pure, Except.pure]
  | cons a l ih =>
    rw [List.mapM_cons]
    cases hfails : fails a with
    | true =>
      rw [herror a hfails, List.find?_cons_of_pos hfails]
      simp [bind, Except.bind]
    | false =>
      obtain ⟨b, hb⟩ := hok a hfails
      rw [hb, List.find?_cons_of_neg (by simp [hfails]), ← ih]
      cases l.mapM f <;> simp [bind, Except.bind, pure, Except.pure]

/-- Lists that match entry by entry have a match for each entry. -/
theorem exists_zip_of_forall₂ {R : α → β → Prop} {l : List α} {bs : List β}
    (h : List.Forall₂ R l bs) {a : α} (ha : a ∈ l) : ∃ b, (a, b) ∈ l.zip bs ∧ R a b := by
  obtain ⟨k, hk, rfl⟩ := List.mem_iff_getElem.1 ha
  have hk' : k < bs.length := h.length_eq ▸ hk
  refine ⟨bs[k], List.mem_iff_getElem?.2 ⟨k, ?_⟩, h.get hk hk'⟩
  rw [List.getElem?_zip_eq_some]
  exact ⟨List.getElem?_eq_getElem hk, List.getElem?_eq_getElem hk'⟩

/-- Running through a list yields entries with whatever property each of them has. -/
theorem exists_mapM_eq_ok {f : α → Except ε β} {P : α → β → Prop} {l : List α}
    (h : ∀ a ∈ l, ∃ b, f a = .ok b ∧ P a b) :
    ∃ bs, l.mapM f = .ok bs ∧ List.Forall₂ P l bs := by
  induction l with
  | nil => exact ⟨[], rfl, .nil⟩
  | cons a l ih =>
    obtain ⟨b, hb, hP⟩ := h a (by simp)
    obtain ⟨bs, hbs, hall⟩ := ih fun c hc => h c (List.mem_cons_of_mem _ hc)
    exact ⟨b :: bs, mapM_eq_ok_iff.2 (.cons hb (mapM_eq_ok_iff.1 hbs)), .cons hP hall⟩

end Except

namespace Run

variable {α β : Type}

/-- The journal does not decide anything. -/
theorem outcome_bind (x : Run α) (f : α → Run β) :
    (x >>= f).outcome = x.outcome.bind fun a => (f a).outcome := by
  cases h : x.outcome with
  | ok a => rw [bind_of_ok h]; rfl
  | error e => rw [bind_of_error h]; rfl

theorem outcome_map (f : α → β) (x : Run α) : (f <$> x).outcome = x.outcome.map f := by
  rw [← bind_pure_comp, outcome_bind]
  cases x.outcome <;> rfl

@[simp] theorem outcome_note (e : Event) : (note e).outcome = .ok () := rfl

@[simp] theorem outcome_warn (warnings : List Warning) : (warn warnings).outcome = .ok () := rfl

@[simp] theorem outcome_ofExcept (x : Except MeshError α) : (ofExcept x).outcome = x := rfl

@[simp] theorem outcome_fail (e : MeshError) : (fail e : Run α).outcome = .error e := rfl

theorem outcome_note_bind (e : Event) (f : Unit → Run α) :
    (note e >>= f).outcome = (f ()).outcome := by
  rw [outcome_bind, outcome_note]
  rfl

theorem outcome_warn_bind (warnings : List Warning) (f : Unit → Run α) :
    (warn warnings >>= f).outcome = (f ()).outcome := by
  rw [outcome_bind, outcome_warn]
  rfl

end Run

/-! ## Relaxation -/

theorem dualName_of_head? {name : Text} (h : name.head? ≠ some 'd') :
    dualName name = 'd' :: name := by
  unfold dualName
  split
  · simp at h
  · rfl

namespace Mesh

/-- The meshes differ in their positions at most. -/
structure Alike (m m' : Mesh) : Prop where
  name : m.name = m'.name
  faces : m.faces = m'.faces
  vertexCount : m.vertexCount = m'.vertexCount

theorem Alike.refl (m : Mesh) : m.Alike m := ⟨rfl, rfl, rfl⟩

theorem Alike.trans {m m' m'' : Mesh} (h : m.Alike m') (h' : m'.Alike m'') : m.Alike m'' :=
  ⟨h.name.trans h'.name, h.faces.trans h'.faces, h.vertexCount.trans h'.vertexCount⟩

/-- The dual has a face for each vertex and a vertex for each face. -/
theorem dual_eq_ok {m d : Mesh} (h : m.dual = .ok d) :
    d.name = dualName m.name ∧ d.faceCount = m.vertexCount ∧ d.vertexCount = m.faceCount := by
  obtain ⟨faces, hfaces, rfl⟩ := Except.map_eq_ok.1 h
  refine ⟨rfl, ?_, by simp [vertexCount]⟩
  obtain ⟨_, _, horder⟩ := Except.bind_eq_ok.1 hfaces
  obtain ⟨_, _, harrange⟩ := Except.bind_eq_ok.1 horder
  have := (mapM_eq_ok_iff.1 harrange).length_eq
  simpa [faceCount] using this.symm

theorem size_poles (rule : Relaxation) (m : Mesh) : (m.poles rule).1.size = m.faceCount := by
  cases rule <;> simp [poles, reciprocalCenters, faceCenters, reciprocalNormals, cornerPositions,
    faceCount]

end Mesh

namespace DualPair

/-- Each side has as many vertices as the other one has faces. -/
structure Matched (p : DualPair) : Prop where
  dual : p.dual.faceCount = p.solid.vertexCount
  solid : p.solid.faceCount = p.dual.vertexCount

variable {p : DualPair} (rule : Relaxation)

theorem pass_alike (h : p.Matched) :
    (p.pass rule).1.solid.Alike p.solid ∧ (p.pass rule).1.dual.Alike p.dual ∧
      (p.pass rule).1.Matched := by
  have hsolid := p.solid.size_poles rule
  have hdual := ({ p.dual with vertices := (p.solid.poles rule).1 } : Mesh).size_poles rule
  exact ⟨⟨rfl, rfl, hdual.trans h.dual⟩, ⟨rfl, rfl, hsolid.trans h.solid⟩,
    ⟨hdual.symm, hsolid.symm⟩⟩

/-- Passes move positions only. -/
theorem passes_alike (n : Nat) (h : p.Matched) :
    (p.passes rule n).1.solid.Alike p.solid ∧ (p.passes rule n).1.dual.Alike p.dual := by
  induction n generalizing p with
  | zero => exact ⟨.refl _, .refl _⟩
  | succ n ih =>
    obtain ⟨hsolid, hdual, hmatched⟩ := pass_alike rule h
    obtain ⟨hsolid', hdual'⟩ := ih hmatched
    exact ⟨hsolid'.trans hsolid, hdual'.trans hdual⟩

end DualPair

namespace Relaxation

variable {rule : Relaxation} {count : Nat} {m : Mesh}

theorem outcome_relax :
    (rule.relax count m).outcome =
      m.dual.bind fun dual => (start count m dual).map fun pair => (pair.passes rule count).1 := by
  unfold relax
  rw [Run.outcome_note_bind, Run.outcome_bind, Run.outcome_ofExcept]
  congr 1
  funext dual
  rw [Run.outcome_note_bind, Run.outcome_bind, Run.outcome_ofExcept]
  cases start count m dual <;> rfl

/-- What relaxation yields is the solid and its dual, with other positions. -/
theorem exists_dual {p : DualPair} (h : (rule.relax count m).outcome = .ok p) :
    ∃ dual, m.dual = .ok dual ∧ p.solid.Alike m ∧ p.dual.Alike dual := by
  rw [outcome_relax] at h
  obtain ⟨dual, hdual, h⟩ := Except.bind_eq_ok.1 h
  obtain ⟨pair, hpair, rfl⟩ := Except.map_eq_ok.1 h
  have heq : pair = ⟨m, dual⟩ := by
    unfold start Mesh.requirePositions at hpair
    split at hpair
    · exact (Except.ok.inj hpair).symm
    · split at hpair
      · simp at hpair
      · exact (Except.ok.inj hpair).symm
  subst heq
  obtain ⟨_, hfaces, hvertices⟩ := Mesh.dual_eq_ok hdual
  exact ⟨dual, hdual, DualPair.passes_alike rule count ⟨hfaces, hvertices.symm⟩⟩

/-- Relaxation succeeds if there is a dual and every corner has a position. -/
theorem exists_relaxed (rule : Relaxation) (count : Nat) {dual : Mesh} (h : m.dual = .ok dual)
    (hpositions : m.danglingVertex? = none) :
    ∃ p, (rule.relax count m).outcome = .ok p := by
  have hstart : start count m dual = .ok ⟨m, dual⟩ := by
    unfold start Mesh.requirePositions
    rw [hpositions]
    exact ite_self _
  exact ⟨_, by rw [outcome_relax, h, Except.bind, hstart]; rfl⟩

end Relaxation

/-! ## Operators -/

theorem Mesh.name_of_build {m m' : Mesh} {operator : Text} {design : Design}
    (h : m.build operator design = .ok m') : m'.name = operator ++ m.name := by
  obtain ⟨faces, _, rfl⟩ := Except.map_eq_ok.1 h
  rfl

namespace Operation

/-- What an operation makes of a mesh, before relaxation; the dual makes nothing. -/
def transform : Operation → Mesh → Except MeshError Mesh
  | kis sides, m =>
    (m.requirePositions ()).bind fun _ => m.build (kis sides).text (m.kisDesign sides)
  | ambo, m =>
    match m.danglingUpwards? with
    | some v => .error (.danglingVertex v)
    | none => m.build ['a'] m.amboDesign
  | gyro, m => (m.requirePositions ()).bind fun _ => m.build ['g'] m.gyroDesign
  | propellor, m => (m.requirePositions ()).bind fun _ => m.build ['p'] m.propellorDesign
  | reflect, m => .ok { m.inverted with name := 'r' :: m.name }
  | canonicalize, m => .ok { m with name := 'c' :: m.name }
  | dual, m => .error (.dualNotMaterialized m.name)

/-- The relaxation that follows an operation, and the number of its passes. -/
def relaxation (settings : Settings) : Operation → Relaxation × Nat
  | kis _ => (.planar, settings.kis)
  | ambo => (.planar, settings.ambo)
  | gyro => (.planar, settings.gyro)
  | propellor => (.planar, settings.propellor)
  | reflect => (.planar, settings.reflect)
  | canonicalize => (.canonical, settings.canonicalize)
  | dual => (.planar, 0)

theorem name_of_transform {op : Operation} {m m' : Mesh} (h : op.transform m = .ok m') :
    m'.name = op.text ++ m.name := by
  have positioned : ∀ {design : Design},
      ((m.requirePositions ()).bind fun _ => m.build op.text design) = .ok m' →
        m'.name = op.text ++ m.name := by
    intro design h
    obtain ⟨_, _, h⟩ := Except.bind_eq_ok.1 h
    exact Mesh.name_of_build h
  cases op with
  | kis sides => exact positioned h
  | gyro => exact positioned h
  | propellor => exact positioned h
  | ambo =>
    simp only [transform] at h
    split at h
    · simp at h
    · exact Mesh.name_of_build h
  | reflect =>
    obtain rfl := Except.ok.inj h
    rfl
  | canonicalize =>
    obtain rfl := Except.ok.inj h
    rfl
  | dual => simp [transform] at h

variable (settings : Settings) (m : Mesh)

theorem outcome_kis (sides : Option Nat) :
    (m.kis sides).outcome = (kis sides).transform m := by
  unfold Mesh.kis
  rw [Run.outcome_note_bind, Run.outcome_bind]
  refine congrArg _ (funext fun _ => ?_)
  split
  · exact Run.outcome_warn_bind _ _
  · rfl

theorem outcome_ambo : m.ambo.outcome = ambo.transform m := by
  unfold Mesh.ambo
  rw [Run.outcome_note_bind, transform]
  cases m.danglingUpwards? <;> rfl

theorem outcome_gyro : m.gyro.outcome = gyro.transform m := by
  unfold Mesh.gyro
  rw [Run.outcome_note_bind, Run.outcome_warn_bind, Run.outcome_bind]
  exact congrArg _ (funext fun _ => Run.outcome_warn_bind _ _)

theorem outcome_propellor : m.propellor.outcome = propellor.transform m := by
  unfold Mesh.propellor
  rw [Run.outcome_note_bind, Run.outcome_warn_bind, Run.outcome_bind]
  rfl

/-- Applying an operation is transforming and relaxing. -/
theorem outcome_apply (op : Operation) :
    (op.apply settings m).outcome =
      (op.transform m).bind fun m' =>
        ((op.relaxation settings).1.relax (op.relaxation settings).2 m').outcome := by
  cases op with
  | kis sides => exact (Run.outcome_bind _ _).trans (by rw [outcome_kis]; rfl)
  | ambo => exact (Run.outcome_bind _ _).trans (by rw [outcome_ambo]; rfl)
  | gyro => exact (Run.outcome_bind _ _).trans (by rw [outcome_gyro]; rfl)
  | propellor => exact (Run.outcome_bind _ _).trans (by rw [outcome_propellor]; rfl)
  | reflect => exact Run.outcome_bind _ _
  | canonicalize => rfl
  | dual => rfl

end Operation

/-! ## Seeds -/

namespace Seed

/-- The solid of a seed, before relaxation. -/
def mesh : Seed → Mesh
  | tetrahedron => Mesh.tetrahedron
  | octahedron => Mesh.octahedron
  | cube => Mesh.cube
  | icosahedron => Mesh.icosahedron
  | dodecahedron => Mesh.dodecahedron
  | prism n => Mesh.prism n
  | antiprism n => Mesh.antiprism n
  | pyramid n => Mesh.pyramid n

/-- The relaxation of a seed, and the number of its passes; a Platonic solid has none. -/
def relaxation? (settings : Settings) : Seed → Option (Relaxation × Nat)
  | prism _ | antiprism _ => some (.planar, settings.prism)
  | pyramid _ => some (.canonical, settings.pyramid)
  | _ => none

theorem name_mesh (seed : Seed) : seed.mesh.name = seed.text := by
  cases seed <;> rfl

/-- Building a seed is relaxing its solid, or taking it as it stands. -/
theorem outcome_build (settings : Settings) (seed : Seed) :
    (seed.build settings).outcome =
      match seed.relaxation? settings with
      | none => .ok ⟨seed.mesh, none⟩
      | some (rule, count) => (rule.relax count seed.mesh).outcome.map Solid.ofPair := by
  unfold build
  rw [Run.outcome_note_bind]
  cases seed with
  | prism n => exact Run.outcome_map _ _
  | antiprism n => exact Run.outcome_map _ _
  | pyramid n => exact Run.outcome_map _ _
  | _ => rfl

/-- What is built is relaxed, or has no dual. -/
theorem build_eq_ok {settings : Settings} {seed : Seed} {s : Solid}
    (h : (seed.build settings).outcome = .ok s) :
    s = ⟨seed.mesh, none⟩ ∨
      ∃ (rule : Relaxation) (count : Nat) (p : DualPair),
        (rule.relax count seed.mesh).outcome = .ok p ∧ s = Solid.ofPair p := by
  rw [outcome_build] at h
  split at h
  · exact .inl (Except.ok.inj h).symm
  · next rule count _ =>
    obtain ⟨p, hp, hs⟩ := Except.map_eq_ok.1 h
    exact .inr ⟨rule, count, p, hp, hs.symm⟩

end Seed

end Polyhedra
