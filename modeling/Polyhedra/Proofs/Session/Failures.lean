import Polyhedra.Proofs.Session.InPlace

/-!
# Builds that fail

A build may fail at any of its steps: in the seed, at an operation, or at a dual that was never
made.  What was at hand before is at hand afterwards, and all that a failure leaves behind are
counts.

Counts are written, but never read by a build.  So sessions that differ in their counts only
answer all requests alike, one after another (`Session.AlikeButCounts.buildAll`), and go on to
differ by what they differed at first.  In particular nobody can tell, except from the counts,
that a build that failed was asked for at all.

## Main results

* `Session.AlikeButCounts.buildAll` — counts do not matter to what is built.
* `Session.tally_buildAll` — each build adds the counts of its own journal.
* `Session.build_error_leaves_no_trace` — what a failed build does to its session.
-/

namespace Polyhedra

namespace Session

variable {s s' : Session} {p : Program}

/-! ## Builds one after another -/

/-- Builds one program after another, whether or not the one before could be built. -/
def buildAll (s : Session) : List Program → Session × List (Run Mesh)
  | [] => (s, [])
  | p :: ps =>
    (((s.build p).1.buildAll ps).1, (s.build p).2 :: ((s.build p).1.buildAll ps).2)

/-- The sessions have the same settings and the same solid at hand. -/
structure AlikeButCounts (s s' : Session) : Prop where
  settings : s.settings = s'.settings
  cache : s.cache = s'.cache

namespace AlikeButCounts

theorem outcome_build (h : s.AlikeButCounts s') (p : Program) : (s.build p).2 = (s'.build p).2 := by
  simp only [build, h.settings, h.cache]

theorem build (h : s.AlikeButCounts s') (p : Program) :
    (s.build p).1.AlikeButCounts (s'.build p).1 where
  settings := h.settings
  cache := by simp only [Session.build, after, h.settings, h.cache]

/-- Counts do not matter to what is built, nor to what is at hand afterwards. -/
theorem buildAll (h : s.AlikeButCounts s') (ps : List Program) :
    (s.buildAll ps).2 = (s'.buildAll ps).2 ∧
      (s.buildAll ps).1.AlikeButCounts (s'.buildAll ps).1 := by
  induction ps generalizing s s' with
  | nil => exact ⟨rfl, h⟩
  | cons p ps ih =>
    obtain ⟨hruns, halike⟩ := ih (h.build p)
    refine ⟨?_, halike⟩
    show (s.build p).2 :: _ = (s'.build p).2 :: _
    rw [h.outcome_build p, hruns]

end AlikeButCounts

/-! ## Counts -/

theorem tally_build (s : Session) (p : Program) :
    (s.build p).1.tally = s.tally + (s.build p).2.tally := by
  have hjournal := Run.journal_map Solid.mesh (p.build s.settings s.cache)
  simp only [build, after, Run.tally, hjournal]
  exact s.tally.recordAll_eq_add _

/-- Each build adds the counts of its own journal. -/
theorem tally_buildAll (s : Session) (ps : List Program) :
    (s.buildAll ps).1.tally = s.tally + ((s.buildAll ps).2.map Run.tally).sum := by
  induction ps generalizing s with
  | nil => rfl
  | cons p ps ih =>
    show ((s.build p).1.buildAll ps).1.tally = _
    rw [ih, tally_build, add_assoc]
    rfl

/-! ## Failures -/

/--
A build that fails, for whatever reason and wherever it does, leaves the settings and the solid
at hand as they were, and lowers no counter.  That is so in the end, and also at each moment
of a build that writes to its session while it goes on.

Whatever is built afterwards, one program after another, the answers are the same as if the
failed build had not been asked for, and so is the solid at hand in the end; the counts are the
same too, but for those of the failed build.
-/
theorem build_error_leaves_no_trace {e : MeshError} (h : (s.build p).2.outcome = .error e) :
    (s.build p).1.AlikeButCounts s ∧ s.tally.Within (s.build p).1.tally ∧
      (∀ w, Workbench.Reaches p (.start s) w → w.session.AlikeButCounts s ∧
        s.tally.Within w.session.tally) ∧
      StateTransition.eval (Workbench.step? p) (.start s) =
        Part.some ⟨(s.build p).1, (s.build p).2.journal, .failed e⟩ ∧
      ∀ ps, ((s.build p).1.buildAll ps).2 = (s.buildAll ps).2 ∧
        ((s.build p).1.buildAll ps).1.AlikeButCounts (s.buildAll ps).1 ∧
        (s.buildAll ps).1.tally.Within ((s.build p).1.buildAll ps).1.tally := by
  have hend : StateTransition.eval (Workbench.step? p) (.start s) =
      Part.some ⟨(s.build p).1, (s.build p).2.journal, .failed e⟩ := by
    rw [Workbench.eval_start, Workbench.ended, h]
    rfl
  have hway : ∀ w, Workbench.Reaches p (.start s) w → w.session.AlikeButCounts s ∧
      s.tally.Within w.session.tally := fun w hw =>
    ⟨⟨hw.untouched.settings, hw.cache_of_error h⟩, hw.untouched.tally⟩
  have hreaches := (StateTransition.mem_eval.1 (hend ▸ Part.mem_some _)).1
  obtain ⟨halike, hwithin⟩ := hway _ hreaches
  refine ⟨halike, hwithin, hway, hend, fun ps => ?_⟩
  obtain ⟨hruns, hafter⟩ := halike.buildAll ps
  refine ⟨hruns, hafter, ?_⟩
  rw [tally_buildAll, tally_buildAll, hruns]
  exact hwithin.add_right _

end Session

/-- The program of `dC` as it is written: a dual that nothing on the way has made. -/
def Program.dualCube : Program where
  text := ['d', 'C']
  seed := .cube
  seedSpan := ⟨1, 2⟩
  operations := [⟨.dual, ⟨0, 1⟩⟩]

/-- A tetrahedron stays at hand while the dual of a cube is asked for in vain, twice. -/
theorem Session.build_error_leaves_no_trace_dual_cube :
    ∃ s : Session, s.cache.isSome = true ∧
      (s.build .dualCube).2.outcome = .error (.dualNotMaterialized ['C']) ∧
      (s.build .dualCube).1.cache = s.cache ∧
      ((s.build .dualCube).1.buildAll [.dualCube]).2 = (s.buildAll [.dualCube]).2 := by
  let s : Session := { cache := some ⟨Mesh.tetrahedron, Mesh.octahedron⟩ }
  have hfails : (s.build .dualCube).2.outcome = .error (.dualNotMaterialized ['C']) := rfl
  obtain ⟨halike, -, -, -, hlater⟩ := build_error_leaves_no_trace hfails
  exact ⟨s, rfl, hfails, halike.cache, (hlater [.dualCube]).1⟩

end Polyhedra
