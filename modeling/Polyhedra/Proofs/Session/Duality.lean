import Polyhedra.Proofs.Session.Soundness

/-!
# The pair at hand

What a session has at hand are two spherical polyhedra, each of which is the dual
of the other: the net of either is the dual of the net of the other one, so that
it does not matter which side was asked for last (`DualPair.Sound.swap`).  What a
program describes is such a pair, and requests leave at hand what was there or what
a program describes.

## Main results

* `DualPair.Sound.touches_iff`, `DualPair.Sound.runs_iff` — what the pair says of
  vertices and edges.
* `named_pair_of_describe` — the names of the sides go together.
* `Session.Reachable.sound_cache` — what a session has at hand is sound, and either
  side has the name of the dual of the other.
-/

namespace Polyhedra

variable {settings : Settings}

/-! ## How the sides belong together -/

namespace DualPair.Sound

variable {p : DualPair} {f g v w : Nat} (h : p.Sound)
include h

/-- A vertex lies in a face just when the face, as a vertex of the dual, lies in its dual face. -/
theorem touches_iff : p.solid.Touches f v ↔ p.dual.Touches v f := by
  rw [← Mesh.touches_net_iff, ← Mesh.touches_net_iff, h.net,
    (Mesh.surface_iff.1 h.solid.toSurface).2.touches_dual_iff]

/-- The dual face of a vertex passes across the edges at the vertex. -/
theorem runs_iff : p.dual.RunsAlong v g f ↔
    ∃ w, p.solid.RunsAlong f v w ∧ p.solid.RunsAlong g w v := by
  show p.dual.net.Runs v g f ↔ _
  rw [h.net]
  rfl

/-- An edge of a dual face crosses a single edge of the solid. -/
theorem existsUnique_of_runs (hr : p.dual.RunsAlong v g f) :
    ∃! w, p.solid.RunsAlong f v w ∧ p.solid.RunsAlong g w v := by
  obtain ⟨w, hf, hg⟩ := h.runs_iff.1 hr
  refine ⟨w, ⟨hf, hg⟩, fun w' hw' => ?_⟩
  exact (Mesh.surface_iff.1 h.solid.toSurface).2.right_unique hw'.1 hf

end DualPair.Sound

/-! ## Names of the sides -/

/-- Either side has the name of the dual of the other one. -/
structure DualPair.Named (p : DualPair) : Prop where
  dual : p.dual.name = dualName p.solid.name
  solid : p.solid.name = dualName p.dual.name

/-- If duals stand apart then no spelling begins with two of them. -/
theorem DualsApart.not_prefix {ops : List Operation} {seed : Seed} (h : DualsApart ops seed) :
    ¬ ['d', 'd'] <+: spelling ops seed := by
  intro hprefix
  obtain ⟨t, ht⟩ := hprefix
  by_cases hhead : ops.head? = some .dual
  · obtain ⟨rest, hrest⟩ := List.head?_eq_some_iff.1 hhead
    subst hrest
    rw [spelling_dual_cons] at ht
    exact h.head?_ne (by simp [← (List.cons.inj ht).2])
  · exact head?_spelling_ne hhead seed (by simp [← ht])

/-- The names of the sides go together if duals stand apart. -/
theorem named_pair_of_describe {ops : List Operation} {seed : Seed} {s : Solid} {p : DualPair}
    (happart : DualsApart ops seed) (h : describe settings ops seed = .ok s)
    (hpair : s.pair? = some p) : p.Named := by
  obtain ⟨d, hd, hp⟩ := Option.map_eq_some_iff.1 hpair
  have hnamed := named_of_describe happart h
  have hdual : p.dual.name = dualName (spelling ops seed) := by
    rw [← hp]
    exact hnamed.dual d hd
  have hsolid : p.solid.name = spelling ops seed := by
    rw [← hp]
    exact hnamed.mesh
  refine ⟨hdual.trans (by rw [hsolid]), ?_⟩
  rw [hdual, hsolid]
  exact (dualName_dualName_iff.2 happart.not_prefix).symm

/-! ## Sessions -/

namespace Session

/-- What a session has at hand is sound, and either side has the name of the dual of the other. -/
theorem Reachable.sound_cache {s : Session} (h : Reachable settings s) {pair : DualPair}
    (hpair : s.cache = some pair) : pair.Sound ∧ pair.Named := by
  induction h with
  | fresh => simp at hpair
  | clear _ _ => simp [Session.clear] at hpair
  | @generate s input before ih =>
    obtain rfl := before.settings_eq
    unfold Session.generate at hpair
    split at hpair
    · exact ih hpair
    · next c hc =>
      obtain ⟨⟨front, last, hreads⟩, happart⟩ := Text.reads_of_compile hc
      obtain ⟨-, -, hsides⟩ := Program.exists_reads (Text.parse_of_compile hc)
      rcases before.recalled.cache_of_build hreads hpair with hbefore | ⟨solid, hdescribe, hpair⟩
      · exact ih hbefore
      · exact ⟨(sound_of_describe hsides happart hdescribe).pair _ hpair,
          named_pair_of_describe happart hdescribe hpair⟩

/--
Whatever requests came before, the solid and the dual that a session has at hand
are valid, have as many vertices as the other one has faces, and belong together:
vertices lie in faces as the dual faces tell, edges cross edges, and either name
is that of the dual of the other.
-/
theorem Reachable.cache_dual {s : Session} (h : Reachable settings s) {pair : DualPair}
    (hpair : s.cache = some pair) :
    (pair.solid.validate = .ok () ∧ pair.dual.validate = .ok ()) ∧
      (pair.dual.vertexCount = pair.solid.faceCount ∧
        pair.dual.faceCount = pair.solid.vertexCount) ∧
      (∀ f v, pair.solid.Touches f v ↔ pair.dual.Touches v f) ∧
      (∀ f g v w, pair.solid.RunsAlong f v w → pair.solid.RunsAlong g w v →
        pair.dual.RunsAlong v g f) ∧
      (∀ v g f, pair.dual.RunsAlong v g f →
        ∃! w, pair.solid.RunsAlong f v w ∧ pair.solid.RunsAlong g w v) ∧
      pair.dual.name = dualName pair.solid.name ∧ pair.solid.name = dualName pair.dual.name := by
  obtain ⟨hsound, hnamed⟩ := h.sound_cache hpair
  refine ⟨⟨hsound.solid.validate_eq_ok, hsound.dual.validate_eq_ok⟩,
    ⟨hsound.vertexCount_dual, hsound.faceCount_dual⟩, fun f v => hsound.touches_iff,
    fun f g v w hf hg => ?_, fun v g f hr => hsound.existsUnique_of_runs hr,
    hnamed.dual, hnamed.solid⟩
  exact hsound.runs_iff.2 ⟨w, hf, hg⟩

/-- A session that was asked for the kis of the cube has it at hand, and its dual. -/
theorem Reachable.cache_dual_kis_cube :
    Reachable {} (({} : Session).generate ['k', 'C']).1 ∧
      ∃ pair, (({} : Session).generate ['k', 'C']).1.cache = some pair ∧
        (pair.solid.validate = .ok () ∧ pair.dual.validate = .ok ()) ∧
          (∀ f v, pair.solid.Touches f v ↔ pair.dual.Touches v f) ∧
            pair.dual.name = dualName pair.solid.name ∧
              pair.solid.name = dualName pair.dual.name := by
  have hfresh : Reachable {} {} := .fresh
  have hreachable := hfresh.generate ['k', 'C']
  have hprogram : ∀ c ∈ (Text.compile ['k', 'C']).toOption,
      c.program.operations ≠ [] ∧ c.program.Small := by decide
  obtain ⟨p, hc, -⟩ := compile_of_validate (show Text.validate ['k', 'C'] = .ok () by decide)
  obtain ⟨hoperations, hsmall⟩ := hprogram _ (by rw [hc]; rfl)
  obtain ⟨g, hg⟩ := hfresh.exists_answer hc hsmall
  obtain ⟨pair, hpair, -⟩ := hfresh.exists_pair hc hoperations hg
  obtain ⟨hvalid, -, htouches, -, -, hnames⟩ := hreachable.cache_dual hpair
  exact ⟨hreachable, pair, hpair, hvalid, htouches, hnames⟩

end Session

end Polyhedra
