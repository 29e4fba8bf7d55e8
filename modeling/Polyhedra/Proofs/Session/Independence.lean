import Polyhedra.Proofs.Construction.Independence
import Polyhedra.Proofs.Session.Naming

/-!
# What is built does not depend on settings or requests

Settings say how often positions are moved, and requests made before decide which
solid is at hand, with positions of its own.  Neither shows in the names, the
faces and the numbers of vertices that a session answers with.  Two descriptions
of a program under different settings go through solids of the same topology
(`describe_topology`): the seeds are the same meshes before relaxation, an
operation makes what is alike of what is alike, or is too large on both sides, and
the dual is exchanged on both sides at once.

## Main results

* `describe_topology` — what a program describes has one topology.
* `topology_independent` — neither sessions nor operations let positions decide
  on topology.
-/

namespace Polyhedra

/-- The topology of a solid, and that of its dual if it has one. -/
def Solid.topology (s : Solid) : Topology × Option Topology :=
  (s.mesh.topology, s.dual.map Mesh.topology)

theorem Solid.topology_ofPair_eq_iff {p p' : DualPair} :
    (ofPair p).topology = (ofPair p').topology ↔ p.topology = p'.topology := by
  simp [topology, ofPair, DualPair.topology]

/-- Settings move the positions of a seed at most. -/
theorem Seed.topology_of_build {settings settings' : Settings} {seed : Seed} {s s' : Solid}
    (h : (seed.build settings).outcome = .ok s) (h' : (seed.build settings').outcome = .ok s') :
    s.topology = s'.topology := by
  rw [outcome_build] at h h'
  have relaxed : ∀ {rule rule' : Relaxation} {count count' : Nat},
      (rule.relax count seed.mesh).outcome.map Solid.ofPair = .ok s →
      (rule'.relax count' seed.mesh).outcome.map Solid.ofPair = .ok s' →
      s.topology = s'.topology := by
    intro rule rule' count count' hs hs'
    obtain ⟨p, hp, rfl⟩ := Except.map_eq_ok.1 hs
    obtain ⟨p', hp', rfl⟩ := Except.map_eq_ok.1 hs'
    exact Solid.topology_ofPair_eq_iff.2 (Relaxation.topology_eq_of_relaxed (.refl _) hp hp')
  cases seed with
  | prism n => exact relaxed h h'
  | antiprism n => exact relaxed h h'
  | pyramid n => exact relaxed h h'
  | _ => rw [← Except.ok.inj h, ← Except.ok.inj h']

/-- Only topology decides on the size. -/
theorem Operation.sizeFault?_congr (op : Operation) {m m' : Mesh} (h : m.Alike m') :
    op.sizeFault? m = op.sizeFault? m' := by
  have hedges : m.edges = m'.edges := by
    rw [Mesh.edges, Mesh.edges, Mesh.directedEdges, Mesh.directedEdges, h.faces]
  have hselected : ∀ sides, m.selectedFaces sides = m'.selectedFaces sides := fun sides => by
    rw [Mesh.selectedFaces, Mesh.selectedFaces, h.faces]
  unfold sizeFault?
  cases op <;> simp only [size, Mesh.kisFaceCount, hedges, hselected, h.vertexCount, h.faceCount]

/-- The dual is exchanged, or missing, whatever the positions. -/
theorem Solid.topology_exchange {s s' : Solid} (hsame : s.topology = s'.topology) :
    s.exchange.outcome.map topology = s'.exchange.outcome.map topology := by
  obtain ⟨mesh, dual?⟩ := s
  obtain ⟨mesh', dual?'⟩ := s'
  obtain ⟨hmesh, hdual⟩ := Prod.mk.inj hsame
  cases dual? with
  | none =>
    obtain rfl := Option.map_eq_none_iff.1 hdual.symm
    have hname := (Mesh.topology_eq_iff.1 hmesh).name
    exact congrArg (fun name => Except.error (MeshError.dualNotMaterialized name)) hname
  | some d =>
    obtain ⟨d', rfl, hd⟩ := Option.map_eq_some_iff.1 hdual.symm
    exact congrArg Except.ok (Prod.ext hd.symm (congrArg some hmesh))

/-- An operation leads from sound solids of one topology to such, or is too large for both. -/
theorem Solid.topology_step {settings settings' : Settings} (op : Operation) {s s' : Solid}
    (h : s.Sound) (h' : s'.Sound) (hsame : s.topology = s'.topology) :
    (s.step settings op).outcome.map topology = (s'.step settings' op).outcome.map topology := by
  by_cases hop : op = .dual
  · subst hop
    exact topology_exchange hsame
  · have halike := Mesh.topology_eq_iff.1 (congrArg Prod.fst hsame)
    obtain ⟨hfails, hsucceeds⟩ := Operation.apply_sound settings hop h.mesh
    obtain ⟨hfails', hsucceeds'⟩ := Operation.apply_sound settings' hop h'.mesh
    rw [← op.sizeFault?_congr halike] at hfails' hsucceeds'
    rw [outcome_step hop, outcome_step hop]
    cases hsize : op.sizeFault? s.mesh with
    | none =>
      obtain ⟨p, hp, -⟩ := hsucceeds hsize
      obtain ⟨p', hp', -⟩ := hsucceeds' hsize
      rw [hp, hp']
      exact congrArg Except.ok
        (topology_ofPair_eq_iff.2 (op.topology_eq_of_applied halike hp hp'))
    | some e =>
      rw [hfails e hsize, hfails' e hsize]

/-- What a program describes has one topology, whatever the settings, or one fault. -/
theorem describe_topology (settings settings' : Settings) {ops : List Operation} {seed : Seed}
    (happart : DualsApart ops seed)
    (hsides : ∀ n, seed.sides? = some n → minSeedSides ≤ n ∧ n ≤ maxSeedSides) :
    (describe settings ops seed).map Solid.topology =
      (describe settings' ops seed).map Solid.topology := by
  induction ops with
  | nil =>
    obtain ⟨s, hs, -⟩ := Seed.exists_sound settings hsides
    obtain ⟨s', hs', -⟩ := Seed.exists_sound settings' hsides
    rw [describe, describe, hs, hs']
    exact congrArg Except.ok (Seed.topology_of_build hs hs')
  | cons op ops ih =>
    rw [describe_cons, describe_cons]
    rcases Except.map_eq_map_iff.1 (ih happart.2) with
      ⟨e, he, he'⟩ | ⟨before, before', hbefore, hbefore', hsame⟩
    · rw [he, he']
      rfl
    · rw [hbefore, hbefore']
      exact Solid.topology_step op (sound_of_describe hsides happart.2 hbefore)
        (sound_of_describe hsides happart.2 hbefore') hsame

/-- Sessions of any settings and histories answer a notation with one topology, or one fault. -/
theorem Session.Reachable.topology_generate {settings settings' : Settings} {s s' : Session}
    (h : Reachable settings s) (h' : Reachable settings' s') {input : Text}
    (hinput : input.validate = .ok ()) :
    (∃ g g', (s.generate input).2.outcome = .ok g ∧ (s'.generate input).2.outcome = .ok g' ∧
        g.solid.Alike g'.solid) ∨
      ∃ e, (s.generate input).2.outcome = .error e ∧ (s'.generate input).2.outcome = .error e ∧
        e.OfSize := by
  obtain ⟨p, hc, hparse⟩ := compile_of_validate hinput
  obtain ⟨-, happart⟩ := Text.reads_of_compile hc
  obtain ⟨-, -, hsides⟩ := Program.exists_reads hparse
  have hsame := describe_topology settings settings' happart hsides
  have answer := fun {result} (hresult : describe settings _ _ = result) =>
    (h.outcome_generate_eq hc).trans (congrArg (Except.map _) hresult)
  have answer' := fun {result} (hresult : describe settings' _ _ = result) =>
    (h'.outcome_generate_eq hc).trans (congrArg (Except.map _) hresult)
  rcases Except.map_eq_map_iff.1 hsame with ⟨e, he, he'⟩ | ⟨solid, solid', hs, hs', hsame⟩
  · refine .inr ⟨e, answer he, answer' he', ?_⟩
    rcases h.generate_cases hc with ⟨_, hs, -⟩ | ⟨e', hgenerate, hgrown, -⟩
    · rw [he] at hs
      cases hs
    · obtain rfl := Except.error.inj ((answer he).symm.trans hgenerate)
      exact hgrown.ofSize
  · exact .inl ⟨_, _, answer hs, answer' hs', Mesh.topology_eq_iff.1 (congrArg Prod.fst hsame)⟩

/--
Topology never depends on geometry.  Two sessions, under whatever settings and
after whatever requests, answer a valid notation with solids of the same name,
the same faces and as many vertices, or refuse it with the same fault, which is its
size.  And an operation that is applied to two meshes that differ in their positions
at most fails on both with the same fault, or makes of them two solids that differ
in positions at most, and so do the duals.
-/
theorem topology_independent :
    (∀ {settings settings' : Settings} {s s' : Session} {input : Text},
      Session.Reachable settings s → Session.Reachable settings' s' →
      input.validate = .ok () →
      (∃ g g', (s.generate input).2.outcome = .ok g ∧ (s'.generate input).2.outcome = .ok g' ∧
        g.solid.name = g'.solid.name ∧ g.solid.vertexCount = g'.solid.vertexCount ∧
          g.solid.faces = g'.solid.faces) ∨
      ∃ e, (s.generate input).2.outcome = .error e ∧ (s'.generate input).2.outcome = .error e ∧
        e.OfSize) ∧
    ∀ (settings : Settings) (op : Operation) (m m' : Mesh),
      m.name = m'.name → m.faces = m'.faces → m.vertexCount = m'.vertexCount →
      (∃ e, (op.apply settings m).outcome = .error e ∧
        (op.apply settings m').outcome = .error e) ∨
      ∃ p p', (op.apply settings m).outcome = .ok p ∧ (op.apply settings m').outcome = .ok p' ∧
        p.solid.Alike p'.solid ∧ p.dual.Alike p'.dual := by
  refine ⟨fun h h' hinput => ?_, fun settings op m m' hname hfaces hcount => ?_⟩
  · refine (h.topology_generate h' hinput).imp_left ?_
    rintro ⟨g, g', hg, hg', halike⟩
    exact ⟨g, g', hg, hg', halike.name, halike.vertexCount, halike.faces⟩
  · have hsame := op.apply_alike ⟨hname, hfaces, hcount⟩ settings
    refine (Except.map_eq_map_iff.1 hsame).imp_right ?_
    rintro ⟨p, p', hp, hp', htopology⟩
    exact ⟨p, p', hp, hp', DualPair.topology_eq_iff.1 htopology⟩

/--
A session that has the kis of the cube at hand and one without any passes agree on
the dual of it, and so do the ambos of the cube and of the cube shrunk to a point.
-/
theorem topology_independent_kis_cube :
    (Session.Reachable {} (({} : Session).generate ['k', 'C']).1 ∧
      Session.Reachable { kis := 0 } { settings := { kis := 0 } } ∧
      Text.validate ['d', 'k', 'C'] = .ok () ∧
      ∃ g g', ((({} : Session).generate ['k', 'C']).1.generate ['d', 'k', 'C']).2.outcome = .ok g ∧
        (({ settings := { kis := 0 } } : Session).generate ['d', 'k', 'C']).2.outcome = .ok g' ∧
          g.solid.faces = g'.solid.faces) ∧
    ∃ p p', (Operation.ambo.apply {} Mesh.cube).outcome = .ok p ∧
      (Operation.ambo.apply {}
        { Mesh.cube with vertices := Array.replicate 8 Point.zero }).outcome = .ok p' ∧
        p.solid.Alike p'.solid := by
  have hfresh : Session.Reachable {} {} := .fresh
  have hbare : Session.Reachable { kis := 0 } { settings := { kis := 0 } } := .fresh
  have hvalid : Text.validate ['d', 'k', 'C'] = .ok () := by decide
  have hsmall : ∀ c ∈ (Text.compile ['d', 'k', 'C']).toOption, c.program.Small := by decide
  obtain ⟨p, hc, -⟩ := compile_of_validate hvalid
  obtain ⟨a, ha⟩ := (hfresh.generate ['k', 'C']).exists_answer hc (hsmall _ (by rw [hc]; rfl))
  constructor
  · rcases topology_independent.1 (hfresh.generate ['k', 'C']) hbare hvalid with
      ⟨g, g', hg, hg', -, -, hfaces⟩ | ⟨e, he, -⟩
    · exact ⟨hfresh.generate _, hbare, hvalid, g, g', hg, hg', hfaces⟩
    · rw [ha] at he
      cases he
  · have hcube : Mesh.cube.Sound := ⟨Mesh.spherical_cube, by decide, by decide⟩
    have hambo : Operation.ambo.sizeFault? Mesh.cube = none :=
      Operation.sizeFault?_eq_none_of_le Mesh.spherical_cube le_rfl (by decide)
    obtain ⟨p, hp, -⟩ := (Operation.apply_sound {} (by decide) hcube).2 hambo
    rcases topology_independent.2 {} .ambo Mesh.cube
        { Mesh.cube with vertices := Array.replicate 8 Point.zero } rfl rfl rfl with
      ⟨e, he, -⟩ | ⟨q, q', hq, hq', halike, -⟩
    · rw [hp] at he
      cases he
    · exact ⟨q, q', hq, hq', halike⟩

end Polyhedra
