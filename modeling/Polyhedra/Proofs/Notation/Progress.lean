import Polyhedra.Proofs.Notation.Passes

/-!
# Progress

Rules make texts longer and shorter, and exchange the letters of seeds back and forth: a
cube behind a dual becomes an octahedron, an octahedron behind a dual a cube, and an
octahedron behind an ambo a cube.  Still there is a weight of texts that every rule lowers
wherever it finds something (`Rule.weight_apply_lt`): an alias weighs more than what it
stands for, and a dual more than any change of seed that takes it away.  So rules that
change a text never lead back to it, in whatever order they are applied and to whatever
text (`Rule.Replays.self_iff`).

The rules that a reduction records are replayed from their names (`Rule.Replays`): each one
is looked up in the table, changes the text, and is applied to the whole of it once.

## Main results

* `Rule.weight_apply_lt` — a rule that changes a text makes it lighter.
* `Rule.replays_applyInTurn`, `Text.replays_reduceWithin` — a pass and a reduction are replayed
  from the rules that they record.
* `Text.reduce_replays` — the record of a reduction leads to its output, and is empty just when
  the output is the input.
-/

namespace Polyhedra

/-! ## Weights -/

/--
The weight of a letter.  Each alias outweighs what it stands for; a dual outweighs the
difference between any two seeds, and an octahedron or an icosahedron its dual.
-/
def Alphabet.weight : Char → Nat
  | 'o' => 19
  | 'b' => 11
  | 'm' => 11
  | 'j' => 9
  | 't' => 8
  | 's' => 8
  | 'e' => 5
  | 'd' => 3
  | 'a' => 2
  | 'A' => 2
  | 'O' => 2
  | 'I' => 2
  | _ => 1

/-- The weight of a text is that of its letters. -/
def Text.weight : Text → Nat
  | [] => 0
  | c :: t => Alphabet.weight c + weight t

@[simp] theorem Text.weight_cons (c : Char) (t : Text) :
    Text.weight (c :: t) = Alphabet.weight c + t.weight := rfl

@[simp] theorem Text.weight_append (s t : Text) : Text.weight (s ++ t) = s.weight + t.weight := by
  induction s with
  | nil => exact (Nat.zero_add _).symm
  | cons c s ih => rw [List.cons_append, weight_cons, weight_cons, ih, Nat.add_assoc]

namespace Rule

/-- What the rule puts in weighs less than what it takes away. -/
def Lightens : Rule → Prop
  | literal pattern replacement | suffix pattern replacement =>
    replacement.weight < pattern.weight
  | argument letter before after => before.weight + after.weight < Alphabet.weight letter

instance : DecidablePred Lightens := fun r =>
  match r with
  | literal pattern replacement => inferInstanceAs (Decidable (replacement.weight < pattern.weight))
  | suffix pattern replacement => inferInstanceAs (Decidable (replacement.weight < pattern.weight))
  | argument letter before after =>
    inferInstanceAs (Decidable (before.weight + after.weight < Alphabet.weight letter))

/-- Every rule of the table takes away more than it puts in. -/
theorem lightens_of_mem_table : ∀ r ∈ table, r.Lightens := by
  decide

variable {r : Rule} {t u v : Text} {names more : List String}

theorem Replaces.weight_lt (hr : r.Lightens) (h : r.Replaces t u) : u.weight < t.weight := by
  cases h with
  | literal pattern replacement before after =>
    have hless : replacement.weight < pattern.weight := hr
    simp only [Text.weight_append]
    omega
  | suffix pattern replacement before =>
    have hless : replacement.weight < pattern.weight := hr
    simp only [Text.weight_append]
    omega
  | argument letter left right before digits after =>
    have hless : left.weight + right.weight < Alphabet.weight letter := hr
    simp only [Text.weight_append, Text.weight_cons]
    omega

/-- Replacing one occurrence after another makes a text lighter, if there are any. -/
theorem Steps.weight_lt (hr : r.Lightens) (h : r.Steps t u) (hne : u ≠ t) :
    u.weight < t.weight := by
  suffices hcases : u = t ∨ u.weight < t.weight from hcases.resolve_left hne
  clear hne
  induction h with
  | refl => exact .inl rfl
  | tail _ hlast ih =>
    have hlower := hlast.weight_lt hr
    rcases ih with rfl | hbefore
    · exact .inr hlower
    · exact .inr (hlower.trans hbefore)

/-- A rule that changes a text makes it lighter. -/
theorem weight_apply_lt (hr : r ∈ table) (h : r.apply t ≠ t) : (r.apply t).weight < t.weight :=
  (steps_apply (hasPattern_of_mem_table hr) t).weight_lt (lightens_of_mem_table r hr) h

/-! ## Replaying -/

/--
The rules with these names lead from one text to another: each in turn is applied once to the
whole text, and changes it.
-/
inductive Replays : List String → Text → Text → Prop where
  | nil (t : Text) : Replays [] t t
  | cons {name : String} {names : List String} {r : Rule} {t u : Text}
      (named : named? name = some r) (changes : r.apply t ≠ t)
      (rest : Replays names (r.apply t) u) : Replays (name :: names) t u

/-- No two rules of the table have the same name. -/
theorem named?_name : ∀ r ∈ table, named? r.name = some r := by
  decide

theorem mem_table_of_named? {name : String} (h : named? name = some r) : r ∈ table :=
  List.mem_of_find?_eq_some h

namespace Replays

theorem nil_iff : Replays [] t u ↔ u = t := by
  constructor
  · rintro (_ | _)
    rfl
  · rintro rfl
    exact .nil u

theorem append (h : Replays names t u) (hmore : Replays more u v) :
    Replays (names ++ more) t v := by
  induction h with
  | nil t => exact hmore
  | cons named changes _ ih => exact .cons named changes (ih hmore)

/-- Rules that are replayed make a text lighter, if there are any. -/
theorem weight_lt (h : Replays names t u) (hne : names ≠ []) : u.weight < t.weight := by
  suffices hle : u.weight ≤ t.weight ∧ (names ≠ [] → u.weight < t.weight) from hle.2 hne
  clear hne
  induction h with
  | nil t => simp
  | cons named changes _ ih =>
    have hfirst := weight_apply_lt (mem_table_of_named? named) changes
    exact ⟨(ih.1.trans_lt hfirst).le, fun _ => ih.1.trans_lt hfirst⟩

/-- Only where no rules are replayed, the text is the same afterwards. -/
theorem eq_iff (h : Replays names t u) : u = t ↔ names = [] := by
  refine ⟨fun hsame => ?_, fun hnone => nil_iff.1 (hnone ▸ h)⟩
  by_contra hne
  exact (h.weight_lt hne).ne (congrArg Text.weight hsame)

/-- Rules that change a text never lead back to it. -/
theorem self_iff : Replays names t t ↔ names = [] :=
  ⟨fun h => h.eq_iff.1 rfl, fun h => h ▸ .nil t⟩

end Replays

/-- A pass is replayed from the rules that it records. -/
theorem replays_applyInTurn {rules : List Rule} (hrules : ∀ r ∈ rules, r ∈ table) (t : Text) :
    Replays ((applyInTurn rules t).2.map name) t (applyInTurn rules t).1 := by
  induction rules generalizing t with
  | nil => exact .nil t
  | cons r rules ih =>
    have hrest := ih (fun s hs => hrules s (List.mem_cons_of_mem r hs)) (r.apply t)
    simp only [applyInTurn]
    split
    · next hsame => rwa [hsame] at hrest ⊢
    · next hchanges =>
      exact .cons (named?_name r (hrules r List.mem_cons_self)) hchanges hrest

end Rule

namespace Text

/-- Several passes are replayed from the rules that they record. -/
theorem replays_reduceWithin (n : Nat) (t : Text) :
    Rule.Replays ((reduceWithin n t).2.map Rule.name) t (reduceWithin n t).1 := by
  induction n generalizing t with
  | zero => exact .nil t
  | succ n ih =>
    have hpass : Rule.Replays (t.fired.map Rule.name) t t.pass := by
      rw [fired, pass]
      exact Rule.replays_applyInTurn (fun _ => id) t
    rw [reduceWithin_succ]
    split
    · exact hpass
    · rw [List.map_append]
      exact hpass.append (ih t.pass)

/--
The record of a reduction is replayed from the names in it: applied one after the other, each
once to the whole text, the rules lead from the input to the output, and each one changes the
text.  The record is empty just when the output is the input.  More than that, no rules of
the table that change a text in turn lead back to it, in whatever order they come.
-/
theorem reduce_replays (t : Text) :
    t.reduce.input = t ∧
      Rule.Replays (t.reduce.applied.map Rule.name) t t.reduce.output ∧
      (t.reduce.isUnchanged = true ↔ t.reduce.output = t) ∧
      ∀ names, Rule.Replays names t t ↔ names = [] := by
  have hreplays : Rule.Replays (t.reduce.applied.map Rule.name) t t.reduce.output := by
    simpa only [reduce_eq] using replays_reduceWithin 2 t
  refine ⟨by rw [reduce_eq], hreplays, ?_, fun _ => Rule.Replays.self_iff⟩
  rw [Reduction.isUnchanged, List.isEmpty_iff, hreplays.eq_iff, List.map_eq_nil_iff]

end Text

end Polyhedra
