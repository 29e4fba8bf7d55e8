import Polyhedra.Proofs.Construction.Soundness
import Polyhedra.Proofs.Session.Transparency

/-!
# Sessions build polyhedra

A valid notation is built, unless an operation on the way would outgrow the limits,
and what is built is a spherical polyhedron.  Along the operations of a program the
solid and its dual are spherical polyhedra within the limits.  Only a Platonic solid
just taken from its table has no dual, and there no dual is asked for: the canonical
form has none in front of such a seed.

## Main results

* `Solid.Sound.step_sound` — a step succeeds, or says what there would be too many of.
* `describe_sound` — what a program with its duals apart describes.
* `Session.Reachable.generate_cases` — a session answers with what the program describes.
* `Session.Reachable.generate_valid` — every session answers a valid notation with
  the surface of a polyhedron, if with a solid at all.
-/

namespace Polyhedra

variable (settings : Settings)

/--
A step fails on sound solids only if they would grow too large, as long as the dual
is there when it is asked for.
-/
theorem Solid.Sound.step_sound {s : Solid} (h : s.Sound) {op : Operation}
    (hop : op = .dual → s.dual ≠ none) :
    (∀ e, op.sizeFault? s.mesh = some e → (s.step settings op).outcome = .error e) ∧
      (op.sizeFault? s.mesh = none →
        ∃ s', (s.step settings op).outcome = .ok s' ∧ s'.Sound ∧
          (s'.mesh.vertexCount, s'.mesh.faceCount) = op.size s.mesh ∧ s'.dual ≠ none) := by
  by_cases hdual : op = .dual
  · subst hdual
    obtain ⟨d, hd⟩ := Option.ne_none_iff_exists'.1 (hop rfl)
    have hpair : DualPair.Sound ⟨s.mesh, d⟩ := h.pair _ (by rw [pair?, hd]; rfl)
    have hkept : Operation.dual.sizeFault? s.mesh = none :=
      Mesh.oversize?_dual_eq_none.2 h.mesh.withinLimits
    refine ⟨fun e he => by simp [hkept] at he, fun _ => ?_⟩
    exact ⟨⟨d, some s.mesh⟩, outcome_exchange hd, hpair.swap.ofPair,
      Prod.ext hpair.vertexCount_dual hpair.faceCount_dual, by simp⟩
  · obtain ⟨hfails, hsucceeds⟩ := Operation.apply_sound settings hdual h.mesh
    rw [outcome_step hdual]
    refine ⟨fun e hsize => by rw [hfails e hsize]; rfl, fun hsize => ?_⟩
    obtain ⟨p, hp, hpair, hcounts⟩ := hsucceeds hsize
    exact ⟨ofPair p, by rw [hp]; rfl, hpair.ofPair, hcounts, by simp [ofPair]⟩

/-! ## Programs that outgrow the limits -/

/--
The operations do not all fit the limits: what those behind one of them describe
would, by that one, get too many vertices or faces.
-/
def Outgrows (ops : List Operation) (seed : Seed) (e : MeshError) : Prop :=
  ∃ op rest s, op :: rest <:+ ops ∧ describe settings rest seed = .ok s ∧
    op.sizeFault? s.mesh = some e

section Outgrows

variable {settings : Settings} {ops : List Operation} {seed : Seed} {e : MeshError}

theorem Outgrows.cons (h : Outgrows settings ops seed e) (op : Operation) :
    Outgrows settings (op :: ops) seed e := by
  obtain ⟨op', rest, s, hsuffix, hs, hsize⟩ := h
  exact ⟨op', rest, s, hsuffix.trans (List.suffix_cons op ops), hs, hsize⟩

/-- Only too many vertices or faces are at fault. -/
theorem Outgrows.ofSize (h : Outgrows settings ops seed e) : e.OfSize := by
  obtain ⟨op, rest, s, -, -, hsize⟩ := h
  exact Operation.ofSize_of_sizeFault? hsize

end Outgrows

section Described

variable {ops more : List Operation} {seed : Seed} {op : Operation}

theorem DualsApart.of_append (h : DualsApart (ops ++ more) seed) : DualsApart more seed := by
  induction ops with
  | nil => exact h
  | cons op ops ih => exact ih h.2

/-- Where duals stand apart, the dual is there when it is asked for. -/
theorem DualsApart.dual_ne_none (h : DualsApart (op :: ops) seed) {s : Solid}
    (hdual : s.dual = none → ops = [] ∧ seed.symbol ∈ Alphabet.fixedSeeds) (hop : op = .dual) :
    s.dual ≠ none := by
  intro hnone
  obtain ⟨rfl, hfixed⟩ := hdual hnone
  exact h.1 hop _ (List.mem_cons_of_mem _ hfixed) (head?_spelling [] seed)

end Described

/-- How many edges there are at most, when the operations have been applied to the seed. -/
def edgeBound (seed : Seed) : List Operation → Nat
  | [] => seed.mesh.edgeCount
  | op :: ops => edgeBound seed ops * op.growth

theorem edgeBound_le_cons (seed : Seed) (op : Operation) (ops : List Operation) :
    edgeBound seed ops ≤ edgeBound seed (op :: ops) :=
  Nat.le_mul_of_pos_right _ op.growth_pos

/--
With duals apart, operations on a seed lead to sound solids, unless one of them
outgrows the limits; then that is the fault.  Where the edges are few enough, even by
the estimate, none does.
-/
theorem describe_sound {ops : List Operation} {seed : Seed} (happart : DualsApart ops seed)
    (hsides : ∀ n, seed.sides? = some n → minSeedSides ≤ n ∧ n ≤ maxSeedSides) :
    (∃ s, describe settings ops seed = .ok s ∧ s.Sound ∧
      s.mesh.edgeCount ≤ edgeBound seed ops ∧
      (s.dual = none → ops = [] ∧ seed.symbol ∈ Alphabet.fixedSeeds)) ∨
    ∃ e, describe settings ops seed = .error e ∧ Outgrows settings ops seed e ∧
      min maxVertices maxFaces < edgeBound seed ops + 2 := by
  induction ops with
  | nil =>
    obtain ⟨s, hs, hsound, hcounts, hdual⟩ := Seed.exists_sound settings hsides
    obtain ⟨hvertices, hfaces⟩ := Prod.mk.inj hcounts
    refine .inl ⟨s, ?_, hsound, ?_, fun hnone => ⟨rfl, hdual hnone⟩⟩
    · rw [describe, hs]
      rfl
    · rw [edgeBound, Mesh.edgeCount, Mesh.edgeCount, hvertices, hfaces]
  | cons op ops ih =>
    rw [describe_cons]
    rcases ih happart.2 with ⟨s, hs, hsound, hedges, hdual⟩ | ⟨e, he, hgrown, hlarge⟩
    · obtain ⟨hfails, hsucceeds⟩ := hsound.step_sound settings (happart.dual_ne_none hdual)
      rw [hs]
      cases hsize : op.sizeFault? s.mesh with
      | none =>
        obtain ⟨s', hs', hsound', hcounts, hdual'⟩ := hsucceeds hsize
        have hvertices : s'.mesh.vertexCount = (op.size s.mesh).1 := congrArg Prod.fst hcounts
        have hfaces : s'.mesh.faceCount = (op.size s.mesh).2 := congrArg Prod.snd hcounts
        have hgrowth := Operation.size_le hsound.mesh.toSpherical op
        refine .inl ⟨s', hs', hsound', ?_, fun hnone => absurd hnone hdual'⟩
        calc s'.mesh.edgeCount
            = (op.size s.mesh).1 + (op.size s.mesh).2 - 2 := by
              rw [Mesh.edgeCount, Nat.add_comm, hvertices, hfaces]
          _ ≤ op.growth * s.mesh.edgeCount := by omega
          _ ≤ op.growth * edgeBound seed ops := Nat.mul_le_mul_left _ hedges
          _ = edgeBound seed (op :: ops) := Nat.mul_comm _ _
      | some e =>
        refine .inr ⟨e, hfails e hsize, ⟨op, ops, s, List.suffix_rfl, hs, hsize⟩, ?_⟩
        refine Nat.lt_of_not_le fun hsmall => ?_
        have hnone := Operation.sizeFault?_eq_none_of_le hsound.mesh.toSpherical hedges hsmall
        simp [hnone] at hsize
    · refine .inr ⟨e, ?_, hgrown.cons op, ?_⟩
      · rw [he]
        rfl
      · have hgrows := edgeBound_le_cons seed op ops
        omega

section Described

variable {settings : Settings} {ops : List Operation} {seed : Seed} {op : Operation} {s s' : Solid}
  (hsides : ∀ n, seed.sides? = some n → minSeedSides ≤ n ∧ n ≤ maxSeedSides)
include hsides

/-- Whatever operations with duals apart describe, it is sound. -/
theorem sound_of_describe (happart : DualsApart ops seed)
    (h : describe settings ops seed = .ok s) : s.Sound := by
  rcases describe_sound settings happart hsides with ⟨s', hs', hsound, -⟩ | ⟨e, he, -⟩
  · obtain rfl := Except.ok.inj (h.symm.trans hs')
    exact hsound
  · rw [h] at he
    cases he

/-- On what has been described, one more operation fails for its size only. -/
theorem step_of_describe (happart : DualsApart (op :: ops) seed)
    (h : describe settings ops seed = .ok s) :
    (∀ e, (s.step settings op).outcome = .error e → op.sizeFault? s.mesh = some e) ∧
      ∀ s', (s.step settings op).outcome = .ok s' → op.sizeFault? s.mesh = none ∧
        (s'.mesh.vertexCount, s'.mesh.faceCount) = op.size s.mesh := by
  rcases describe_sound settings happart.2 hsides with ⟨_, hs, hsound, -, hdual⟩ | ⟨e, he, -⟩
  · obtain rfl := Except.ok.inj (h.symm.trans hs)
    obtain ⟨hfails, hsucceeds⟩ := hsound.step_sound settings (happart.dual_ne_none hdual)
    cases hsize : op.sizeFault? s.mesh with
    | none =>
      obtain ⟨s', hs', -, hcounts, -⟩ := hsucceeds hsize
      rw [hs']
      refine ⟨fun e he => (nomatch he), fun s'' hs'' => ⟨rfl, ?_⟩⟩
      rw [← Except.ok.inj hs'']
      exact hcounts
    | some e =>
      rw [hfails e hsize]
      exact ⟨fun e' he' => congrArg some (Except.error.inj he'), fun s' hs' => (nomatch hs')⟩
  · rw [h] at he
    cases he

end Described

/-- The edges are few enough, even by the estimate, for nothing on the way to be too large. -/
def Program.Small (p : Program) : Prop :=
  edgeBound p.seed (p.operations.map Token.operation) + 2 ≤ min maxVertices maxFaces

instance (p : Program) : Decidable p.Small := inferInstanceAs (Decidable (_ ≤ _))

namespace Session

variable {settings : Settings} {s : Session} {input : Text} {c : Compiled}

/-- Whatever requests came before, a session answers with what the program describes. -/
theorem Reachable.outcome_generate_eq (h : Reachable settings s) (hc : input.compile = .ok c) :
    (s.generate input).2.outcome =
      (describe settings (c.program.operations.map Token.operation) c.program.seed).map
        fun solid => ⟨solid.mesh, c.trace⟩ := by
  obtain rfl := h.settings_eq
  obtain ⟨⟨front, last, hreads⟩, -⟩ := Text.reads_of_compile hc
  have hbuild := Program.outcome_build hreads h.recalled
  rw [Program.outcome_buildFresh] at hbuild
  unfold Session.generate
  rw [hc]
  simp only [Session.build, Run.outcome_bind, Run.outcome_map, hbuild]
  cases describe s.settings (c.program.operations.map Token.operation) c.program.seed <;> rfl

/--
What compiles is described soundly and answered with that, or it outgrows the
limits, which is then the fault.
-/
theorem Reachable.generate_cases (h : Reachable settings s) (hc : input.compile = .ok c) :
    (∃ solid, describe settings (c.program.operations.map Token.operation) c.program.seed =
        .ok solid ∧ solid.Sound ∧ (solid.dual = none → c.program.operations = []) ∧
      (s.generate input).2.outcome = .ok ⟨solid.mesh, c.trace⟩) ∨
    ∃ e, (s.generate input).2.outcome = .error e ∧
      Outgrows settings (c.program.operations.map Token.operation) c.program.seed e ∧
      ¬ c.program.Small := by
  obtain ⟨-, happart⟩ := Text.reads_of_compile hc
  obtain ⟨-, -, hsides⟩ := Program.exists_reads (Text.parse_of_compile hc)
  rw [h.outcome_generate_eq hc]
  rcases describe_sound settings happart hsides with
    ⟨solid, hs, hsound, -, hdual⟩ | ⟨e, he, hgrown, hlarge⟩
  · refine .inl ⟨solid, hs, hsound, fun hnone => List.map_eq_nil_iff.1 (hdual hnone).1, ?_⟩
    rw [hs]
    rfl
  · refine .inr ⟨e, ?_, hgrown, Nat.not_le.2 hlarge⟩
    rw [he]
    rfl

/-- What compiles to a small program is answered. -/
theorem Reachable.exists_answer (h : Reachable settings s) (hc : input.compile = .ok c)
    (hsmall : c.program.Small) : ∃ g, (s.generate input).2.outcome = .ok g := by
  rcases h.generate_cases hc with ⟨solid, -, -, -, hgenerate⟩ | ⟨e, -, -, hlarge⟩
  · exact ⟨_, hgenerate⟩
  · exact absurd hsmall hlarge

/-- After an answer to what has an operation, the answer is at hand, with its dual. -/
theorem Reachable.exists_pair (h : Reachable settings s) (hc : input.compile = .ok c)
    (hoperations : c.program.operations ≠ []) {g : Generated}
    (hg : (s.generate input).2.outcome = .ok g) :
    ∃ pair, (s.generate input).1.cache = some pair ∧
      describe settings (c.program.operations.map Token.operation) c.program.seed =
        .ok (Solid.ofPair pair) := by
  rcases h.generate_cases hc with ⟨⟨mesh, dual?⟩, hs, -, hdual, -⟩ | ⟨e, he, -⟩
  · obtain ⟨d, rfl⟩ := Option.ne_none_iff_exists'.1 fun hnone => hoperations (hdual hnone)
    obtain rfl := h.settings_eq
    obtain ⟨⟨front, last, hreads⟩, -⟩ := Text.reads_of_compile hc
    have hbuild := Program.outcome_build hreads h.recalled
    rw [Program.outcome_buildFresh, hs] at hbuild
    refine ⟨⟨mesh, d⟩, ?_, hs⟩
    unfold Session.generate
    rw [hc]
    simp only [Session.build, after, hbuild]
    rfl
  · rw [hg] at he
    cases he

/--
Whatever requests came before, a valid notation is answered with a valid solid
whose surface is closed and has the Euler characteristic of a sphere.  The one
exception are the limits: an operation that would outgrow them is refused, with the
number of vertices or faces that there would be.
-/
theorem Reachable.generate_valid {settings : Settings} {s : Session} (h : Reachable settings s)
    {input : Text} (hinput : input.validate = .ok ()) :
    ∃ c, input.compile = .ok c ∧
      ((∃ g, (s.generate input).2.outcome = .ok g ∧ g.solid.validate = .ok () ∧
          g.solid.Surface ∧ g.solid.edges.length = g.solid.edgeCount ∧
            g.solid.vertexCount + g.solid.faceCount = g.solid.edges.length + 2) ∨
        ∃ e, (s.generate input).2.outcome = .error e ∧
          Outgrows settings (c.program.operations.map Token.operation) c.program.seed e ∧
            e.OfSize) := by
  obtain ⟨p, hc, -⟩ := compile_of_validate hinput
  refine ⟨_, hc, ?_⟩
  rcases h.generate_cases hc with ⟨solid, -, hsound, -, hgenerate⟩ | ⟨e, he, hgrown, -⟩
  · exact .inl ⟨_, hgenerate, hsound.mesh.validate_eq_ok, hsound.mesh.toSurface,
      hsound.mesh.length_edges, hsound.mesh.euler_formula⟩
  · exact .inr ⟨e, he, hgrown, hgrown.ofSize⟩

/-- A session that has the kis of the cube at hand is asked for the dual of it. -/
theorem Reachable.generate_valid_dual_kis_cube :
    Reachable {} (({} : Session).generate ['k', 'C']).1 ∧
      Text.validate ['d', 'k', 'C'] = .ok () ∧
        ∃ g, ((({} : Session).generate ['k', 'C']).1.generate ['d', 'k', 'C']).2.outcome = .ok g ∧
          g.solid.validate = .ok () ∧ g.solid.Surface ∧
            g.solid.edges.length = g.solid.edgeCount ∧
              g.solid.vertexCount + g.solid.faceCount = g.solid.edges.length + 2 := by
  have hreachable : Reachable {} (({} : Session).generate ['k', 'C']).1 :=
    Reachable.fresh.generate _
  have hvalid : Text.validate ['d', 'k', 'C'] = .ok () := by decide
  have hsmall : ∀ c ∈ (Text.compile ['d', 'k', 'C']).toOption, c.program.Small := by decide
  obtain ⟨c, hc, hanswer | ⟨e, he, -⟩⟩ := hreachable.generate_valid hvalid
  · exact ⟨hreachable, hvalid, hanswer⟩
  · obtain ⟨g, hg⟩ := hreachable.exists_answer hc (hsmall c (by rw [hc]; rfl))
    rw [he] at hg
    cases hg

end Session

end Polyhedra
