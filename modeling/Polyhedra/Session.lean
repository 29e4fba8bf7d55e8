import Polyhedra.Construction.Build
import Polyhedra.Notation.Compiled

/-!
# Sessions

A session keeps the last solid it built, with its dual, and uses it for what is
asked next. A program whose notation is the name of either one is answered at
once; one whose notation ends in such a name is built on top of it, from the
longer name if both fit; any other one is built from its seed. The journal of a
run shows only the work that this run did, and so only the warnings of that work.

A session counts what it did. The counts are those of the events in the journals
of its runs, so that work done before a fault counts as well.
-/

namespace Polyhedra

/-! ## Counts -/

/-- How often a session did what. -/
structure Tally where
  seedsBuilt : Nat := 0
  operatorsApplied : Nat := 0
  cacheHits : Nat := 0
  dualSwaps : Nat := 0
  resumed : Nat := 0
  deriving DecidableEq

namespace Tally

def record (t : Tally) : Event → Tally
  | .seedBuilt => { t with seedsBuilt := t.seedsBuilt + 1 }
  | .operatorApplied => { t with operatorsApplied := t.operatorsApplied + 1 }
  | .cacheHit => { t with cacheHits := t.cacheHits + 1 }
  | .swapped _ => { t with dualSwaps := t.dualSwaps + 1 }
  | .resumed _ => { t with resumed := t.resumed + 1 }
  | _ => t

def recordAll (t : Tally) (journal : List Event) : Tally := journal.foldl record t

end Tally

/-! ## Applying the operations of a program -/

namespace Solid

/-- Exchanges a solid with its dual, which has to be there. -/
def exchange (s : Solid) : Run Solid :=
  match s.dual with
  | none => Run.fail (.dualNotMaterialized s.mesh.name)
  | some dual => do
    Run.note (.swapped s.mesh.name)
    return ⟨dual, some s.mesh⟩

/-- Applies one operation. -/
def step (settings : Settings) (op : Operation) (s : Solid) : Run Solid :=
  match op with
  | .dual => s.exchange
  | op => do
    let pair ← op.apply settings s.mesh
    Run.note .operatorApplied
    return ofPair pair

/-- Applies tokens in written order: the last one first. -/
def applyTokens (settings : Settings) : List Token → Solid → Run Solid
  | [], s => pure s
  | t :: rest, s => do step settings t.operation (← applyTokens settings rest s)

end Solid

/-! ## Reuse -/

namespace Program

/--
The tokens in front of a solid with the given name, if the notation of the
program ends in that name and a token or the seed begins there.
-/
def pendingOn? (p : Program) (name : Text) : Option (List Token) :=
  if name ≠ [] ∧ name.isSuffixOf p.text then
    let boundary := p.text.byteLength - name.byteLength
    if boundary = p.seedSpan.start then some p.operations
    else if p.operations.any (·.span.start == boundary) then
      some (p.operations.takeWhile (·.span.start != boundary))
    else none
  else none

/-- The pair to build on, the wanted side first, with the tokens still to be applied. -/
def resumePoint? (p : Program) (cache : DualPair) : Option (DualPair × List Token) :=
  match p.pendingOn? cache.solid.name, p.pendingOn? cache.dual.name with
  | some a, some b => if b.length < a.length then some (cache.swap, b) else some (cache, a)
  | some a, none => some (cache, a)
  | none, some b => some (cache.swap, b)
  | none, none => none

/-- Builds the program from its seed. -/
def buildFresh (settings : Settings) (p : Program) : Run Solid := do
  let seed ← p.seed.build settings
  Run.note .seedBuilt
  seed.applyTokens settings p.operations

/-- Builds the program on top of a solid that is at hand. -/
def buildOn (settings : Settings) (pair : DualPair) (pending : List Token) : Run Solid := do
  Run.note (.resumed pair.solid.name)
  (Solid.ofPair pair).applyTokens settings pending

/-- Builds the program, with what is at hand if it helps. -/
def build (settings : Settings) (p : Program) : Option DualPair → Run Solid
  | none => p.buildFresh settings
  | some cache =>
    if cache.solid.name = p.text then do
      Run.note .cacheHit
      return Solid.ofPair cache
    else if cache.dual.name = p.text then do
      let solid ← (Solid.ofPair cache).exchange
      Run.note .cacheHit
      return solid
    else
      match p.resumePoint? cache with
      | some (pair, pending) => buildOn settings pair pending
      | none => p.buildFresh settings

end Program

/-! ## Sessions -/

structure Session where
  settings : Settings := {}
  cache : Option DualPair := none
  tally : Tally := {}

/-- What a user gets for a notation. -/
structure Generated where
  solid : Mesh
  trace : Text

namespace Session

/-- A session with nothing at hand, if the settings are in order. -/
def withSettings (settings : Settings) : Except SettingsError Session :=
  settings.validate.map fun _ => { settings := settings }

/-- Forgets the solid at hand, but not the counts. -/
def clear (s : Session) : Session := { s with cache := none }

/--
The session after a run: the counts grow by the journal; the solid that was
built takes the place of the one at hand if it came with its dual.
-/
def after (s : Session) (run : Run Solid) : Session where
  settings := s.settings
  tally := s.tally.recordAll run.journal
  cache :=
    match run.outcome with
    | .ok solid => solid.pair?.or s.cache
    | .error _ => s.cache

/-- Builds a program; a fault leaves the solid at hand as it was. -/
def build (s : Session) (p : Program) : Session × Run Mesh :=
  let run := p.build s.settings s.cache
  (s.after run, Solid.mesh <$> run)

/-- What is entered into the journal when a notation has been accepted. -/
def announce (c : Compiled) : Run Unit := do
  Run.note (.accepted c.trace)
  Run.warn (c.program.advice.map .advice)

/-- Builds the solid that a notation describes. -/
def generate (s : Session) (input : Text) : Session × Run Generated :=
  match input.compile with
  | .error e => (s, Run.fail (.unreadable e))
  | .ok c =>
    let (next, run) := s.build c.program
    (next, do
      announce c
      let solid ← run
      return ⟨solid, c.trace⟩)

/-- The sessions that requests lead to, from one with nothing at hand and under fixed settings. -/
inductive Reachable (settings : Settings) : Session → Prop where
  | fresh : Reachable settings { settings := settings }
  | generate {s : Session} (input : Text) (before : Reachable settings s) :
    Reachable settings (s.generate input).1
  | clear {s : Session} (before : Reachable settings s) : Reachable settings s.clear

/-- No request changes the settings. -/
theorem Reachable.settings_eq {settings : Settings} {s : Session} (h : Reachable settings s) :
    s.settings = settings := by
  induction h with
  | fresh => rfl
  | generate input before ih =>
    rw [← ih, Session.generate]
    split <;> rfl
  | clear before ih => exact ih

end Session

/-- Builds the solid that a notation describes, with the default settings. -/
def generate (input : Text) : Run Generated := (({} : Session).generate input).2

end Polyhedra
