import Polyhedra.Proofs.Notation.LeadingZeros
import Polyhedra.Proofs.Session.Soundness

/-!
# Names of what is built

A session names what it builds after the operations and the seed of the program,
with each number written out afresh.  No history of requests shows in the name:
duals that were exchanged and solids that were built upon leave it as it is.  The
canonical notation keeps the leading zeros of the user's numbers, though, so it
is the name just when there are none.

## Main results

* `Session.Reachable.name_of_generate` — the name is the canonical notation without
  leading zeros.
* `Session.Reachable.name_generate` — when it is the canonical notation as it stands.
-/

namespace Polyhedra

/-- What a program with its duals apart describes is named after its notation. -/
theorem Program.Reads.named {p : Program} {front : List Lexeme} {last : Lexeme}
    (h : p.Reads front last) {settings : Settings} {solid : Solid}
    (happart : DualsApart (p.operations.map Token.operation) p.seed)
    (hsolid : describe settings (p.operations.map Token.operation) p.seed = .ok solid) :
    solid.Named p.text.terse := by
  rw [← h.spelling_eq]
  exact named_of_describe happart hsolid

/-- What compiles is the program that is read from the canonical form. -/
theorem Text.text_of_compile {input : Text} {c : Compiled} (h : input.compile = .ok c) :
    IsNotation input ∧ c.text = input.reduce.output ∧ c.program.text = c.text := by
  have hvalid := validate_of_compile h
  obtain ⟨p, hcompile, hparse⟩ := compile_of_validate hvalid
  obtain rfl := Except.ok.inj (hcompile.symm.trans h)
  exact ⟨validate_eq_ok_iff_isNotation.1 hvalid, rfl, (Program.exists_reads hparse).1⟩

namespace Session

/-- The name of what a session answers with is the canonical notation without leading zeros. -/
theorem Reachable.name_of_generate {settings : Settings} {s : Session} (h : Reachable settings s)
    {input : Text} {c : Compiled} (hc : input.compile = .ok c) {g : Generated}
    (hg : (s.generate input).2.outcome = .ok g) : g.solid.name = c.text.terse := by
  rw [h.outcome_generate_eq hc] at hg
  obtain ⟨solid, hsolid, rfl⟩ := Except.map_eq_ok.1 hg
  obtain ⟨⟨front, last, hreads⟩, happart⟩ := Text.reads_of_compile hc
  obtain ⟨-, -, htext⟩ := Text.text_of_compile hc
  exact htext ▸ (hreads.named happart hsolid).mesh

/--
Whatever requests came before, what compiles is built and named by its canonical
notation without leading zeros, unless it outgrows the limits.  So the name is the
canonical notation, character for character, just when no number of the input has
leading zeros.
-/
theorem Reachable.name_generate {settings : Settings} {s : Session} (h : Reachable settings s)
    {input : Text} {c : Compiled} (hc : input.compile = .ok c) :
    (∃ g, (s.generate input).2.outcome = .ok g ∧ g.solid.name = c.text.terse ∧
      (g.solid.name = c.text ↔ input.numbers.Terse)) ∨
    ∃ e, (s.generate input).2.outcome = .error e ∧
      Outgrows settings (c.program.operations.map Token.operation) c.program.seed e := by
  rcases h.generate_cases hc with ⟨solid, -, -, -, hgenerate⟩ | ⟨e, he, hgrown, -⟩
  · have hname := h.name_of_generate hc hgenerate
    obtain ⟨⟨front, last, hreads⟩, -⟩ := Text.reads_of_compile hc
    obtain ⟨hgrammar, hreduce, htext⟩ := Text.text_of_compile hc
    refine .inl ⟨_, hgenerate, hname, ?_⟩
    rw [hname, ← hgrammar.terse_numbers_reduce_iff, ← hreduce, ← htext]
    exact hreads.terse_eq_self_iff
  · exact .inr ⟨e, he, hgrown⟩

/-- A session that has the kis of the cube at hand names what it builds for `dddk0P12`. -/
theorem Reachable.name_generate_dual_kis_prism :
    Reachable {} (({} : Session).generate ['k', 'C']).1 ∧
      ∃ c, Text.compile ['d', 'd', 'd', 'k', '0', 'P', '1', '2'] = .ok c ∧
        ∃ g, ((({} : Session).generate ['k', 'C']).1.generate
            ['d', 'd', 'd', 'k', '0', 'P', '1', '2']).2.outcome = .ok g ∧
          g.solid.name = ['d', 'k', '0', 'P', '1', '2'] := by
  have hfresh : Reachable {} {} := .fresh
  have hreachable := hfresh.generate ['k', 'C']
  obtain ⟨p, hc, -⟩ := compile_of_validate
    (show Text.validate ['d', 'd', 'd', 'k', '0', 'P', '1', '2'] = .ok () by decide)
  have hprogram : ∀ c ∈ (Text.compile ['d', 'd', 'd', 'k', '0', 'P', '1', '2']).toOption,
      c.program.Small ∧ c.text.terse = ['d', 'k', '0', 'P', '1', '2'] := by decide
  obtain ⟨hsmall, hterse⟩ := hprogram _ (by rw [hc]; rfl)
  rcases hreachable.name_generate hc with ⟨g, hgenerate, hname, -⟩ | ⟨e, he, -⟩
  · exact ⟨hreachable, _, hc, g, hgenerate, hname.trans hterse⟩
  · obtain ⟨g, hg⟩ := hreachable.exists_answer hc hsmall
    rw [hg] at he
    cases he

/-- The canonical notation `k03C` keeps its zero, but the solid that is built is named `k3C`. -/
theorem name_generate_leading_zero :
    ∃ c g, Text.compile ['k', '0', '3', 'C'] = .ok c ∧
      (({} : Session).generate ['k', '0', '3', 'C']).2.outcome = .ok g ∧
        c.text = ['k', '0', '3', 'C'] ∧ g.solid.name = ['k', '3', 'C'] ∧
          g.solid.name ≠ c.text := by
  have hfresh : Reachable {} {} := .fresh
  obtain ⟨p, hc, -⟩ := compile_of_validate
    (show Text.validate ['k', '0', '3', 'C'] = .ok () by decide)
  have hprogram : ∀ c ∈ (Text.compile ['k', '0', '3', 'C']).toOption,
      c.program.Small ∧ c.text = ['k', '0', '3', 'C'] ∧ c.text.terse = ['k', '3', 'C'] := by decide
  obtain ⟨hsmall, htext, hterse⟩ := hprogram _ (by rw [hc]; rfl)
  obtain ⟨g, hgenerate⟩ := hfresh.exists_answer hc hsmall
  have hname := (hfresh.name_of_generate hc hgenerate).trans hterse
  exact ⟨_, g, hc, hgenerate, htext, hname, by rw [hname, htext]; decide⟩

end Session

end Polyhedra
