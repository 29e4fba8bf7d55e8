import Mathlib.Data.List.Pairwise
import Polyhedra.Proofs.Surface.Leftovers

/-!
# Flags that are replaced

A flag counts if no later flag leaves the same vertex of the same face.  A blueprint may be
settled: the flags that do not count are left out, as if they had never been declared
(`Blueprint.settled`).

That changes nothing about where the vertices of a face lead, but it may change where the
face is entered, since a face is entered where its first flag leads even if that flag does
not count.  So let the flags that count go once round a cycle of declared vertices, in each
face (`Blueprint.GoesRound`).  Then the settled blueprint is assembled from these cycles.
The blueprint itself is assembled from them just when each face is entered on its cycle.
Where a first flag that does not count leads off the cycle nothing leads back to it, and
the face is not assembled.

## Main results

* `Blueprint.runs_settled` — settling keeps the flags that count.
* `Blueprint.GoesRound.exists_closes_iff` — when the orbit of such a face closes.
* `Blueprint.GoesRound.fails_iff` — how such a face fails.
* `Blueprint.assembles_iff_enters` — what becomes of a blueprint whose faces are cycles.
-/

namespace Polyhedra

/-- Of the entries with one key the last one is kept. -/
theorem mem_pwFilter_key_iff {α κ : Type} [BEq κ] [LawfulBEq κ] (key : α → κ) {l : List α}
    {a : α} :
    a ∈ l.pwFilter (fun x y => !(key x == key y)) ↔
      (l.reverse.find? fun x => key x == key a) = some a := by
  induction l with
  | nil => simp
  | cons x l ih =>
    have hlater : (∀ y ∈ l.pwFilter fun x y => !(key x == key y), (!(key x == key y)) = true) ↔
        ∀ y ∈ l, key x ≠ key y := by
      rw [List.forall_mem_pwFilter]
      · simp
      · intro x y z hxz
        by_cases hxy : key x = key y
        · exact .inr (by simpa [← hxy] using hxz)
        · exact .inl (by simpa using hxy)
    rw [List.reverse_cons, List.find?_append]
    by_cases hkey : key x = key a
    · by_cases hlast : ∀ y ∈ l, key x ≠ key y
      · have hnone : (l.reverse.find? fun y => key y == key a) = none := by
          refine List.find?_eq_none.2 fun y hy => ?_
          rw [beq_iff_eq, ← hkey]
          exact (hlast y (List.mem_reverse.1 hy)).symm
        rw [List.pwFilter_cons_of_pos (hlater.2 hlast), List.mem_cons, ih, hnone]
        simp [hkey, eq_comm]
      · have hsome : (l.reverse.find? fun y => key y == key a).isSome = true := by
          obtain ⟨y, hy, hne⟩ : ∃ y ∈ l, ¬ key x ≠ key y := by simpa using hlast
          exact List.find?_isSome.2
            ⟨y, List.mem_reverse.2 hy, beq_iff_eq.2 ((not_not.1 hne).symm.trans hkey)⟩
        rw [List.pwFilter_cons_of_neg fun h => hlast (hlater.1 h), ih, Option.or_of_isSome hsome]
    · have hne : a ≠ x := fun h => hkey (congrArg key h.symm)
      have hskip : ([x].find? fun y => key y == key a) = none := by simpa using hkey
      rw [hskip, Option.or_none, ← ih]
      by_cases hlast : ∀ y ∈ l, key x ≠ key y
      · rw [List.pwFilter_cons_of_pos (hlater.2 hlast), List.mem_cons, or_iff_right hne]
      · rw [List.pwFilter_cons_of_neg fun h => hlast (hlater.1 h)]

/-- The face of a flag, and the vertex that it leaves. -/
def Flag.place {V F : Type} (flag : Flag V F) : F × V := (flag.face, flag.source)

namespace Blueprint

variable {V F : Type}

/-! ## Leaving out what does not count -/

/-- The blueprint without the flags in whose place a later one counts. -/
def settled [BEq V] [BEq F] (b : Blueprint V F) : Blueprint V F :=
  { b with flags := b.flags.pwFilter fun x y => !(x.place == y.place) }

section Settled

variable [BEq V] [Hashable V] [BEq F] [LawfulBEq V] [LawfulBEq F] {b : Blueprint V F} {f : F}
  {v w : V}

/-- The flags that are kept are those that count. -/
theorem runs_settled : b.settled.net.Runs f v w ↔ b.successor? f v = some w := by
  have hkept : b.settled.net.Runs f v w ↔
      (b.flags.reverse.find? fun flag => flag.face == f && flag.source == v) =
        some ⟨f, v, w⟩ := mem_pwFilter_key_iff Flag.place
  rw [hkept, successor?, Option.map_eq_some_iff]
  constructor
  · exact fun h => ⟨_, h, rfl⟩
  · rintro ⟨⟨g, u, x⟩, h, rfl⟩
    have hplace := List.find?_some h
    simp only [Bool.and_eq_true, beq_iff_eq] at hplace
    obtain ⟨rfl, rfl⟩ := hplace
    exact h

omit [Hashable V] in
theorem unreplaced_settled (b : Blueprint V F) : b.settled.Unreplaced := by
  have hkeys := List.pairwise_pwFilter (R := fun x y : Flag V F => !(x.place == y.place)) b.flags
  refine List.pairwise_map.2 (hkeys.imp fun hne heq => ?_)
  rw [Bool.not_eq_true', beq_eq_false_iff_ne] at hne
  exact hne heq

/-- Settling changes nothing about where vertices lead. -/
theorem successor?_settled : b.settled.successor? f v = b.successor? f v :=
  Option.ext fun _ => b.unreplaced_settled.successor?_eq_some_iff.trans runs_settled

theorem mem_faceLabels_settled [Hashable F] : f ∈ b.settled.faceLabels ↔ f ∈ b.faceLabels := by
  rw [mem_faceLabels, mem_faceLabels]
  constructor
  · rintro ⟨v, w, hr⟩
    exact ⟨v, w, runs_of_successor? (runs_settled.1 hr)⟩
  · rintro ⟨v, w, hr⟩
    obtain ⟨x, hx⟩ := exists_successor?_iff.2 (mem_sources.2 ⟨w, hr⟩)
    exact ⟨v, x, runs_settled.2 hx⟩

/-- Settling may change the order of the faces, but none is lost. -/
theorem perm_faceLabels_settled [Hashable F] (b : Blueprint V F) :
    b.settled.faceLabels.Perm b.faceLabels :=
  (List.perm_ext_iff_of_nodup (nodup_faceLabels _) (nodup_faceLabels _)).2
    fun _ => mem_faceLabels_settled

end Settled

/-! ## Cycles of flags that count -/

section Cycles

variable [BEq V] [Hashable V] [BEq F] {b : Blueprint V F} {f : F} {k : Nat} {e : V}
  {cycle loop : List V}

/-- The flags of the face that count go once round the cycle, through declared vertices. -/
structure GoesRound (b : Blueprint V F) (f : F) (cycle : List V) : Prop where
  nodup : cycle.Nodup
  successor?_eq_some_iff : ∀ v w, b.successor? f v = some w ↔ (v, w) ∈ cycleEdges cycle
  declared : ∀ v ∈ cycle, v ∈ b.labels

/-- The first flag of the face leads to one of the vertices. -/
def Enters (b : Blueprint V F) (f : F) (vertices : List V) : Prop :=
  ∃ e ∈ vertices, b.entry? f = some e

theorem exists_entry?_of_mem [Hashable F] [LawfulBEq F] (hf : f ∈ b.faceLabels) :
    ∃ e, b.entry? f = some e := by
  obtain ⟨v, w, hr⟩ := mem_faceLabels.1 hf
  rw [← Option.isSome_iff_exists, entry?, Option.isSome_map, List.find?_isSome]
  exact ⟨⟨f, v, w⟩, hr, by simp⟩

namespace GoesRound

variable (h : b.GoesRound f cycle)
include h

/-- It does not matter where the cycle begins. -/
theorem of_isRotated (hloop : cycle.IsRotated loop) : b.GoesRound f loop where
  nodup := hloop.nodup_iff.1 h.nodup
  successor?_eq_some_iff v w := by
    rw [h.successor?_eq_some_iff, mem_cycleEdges_of_isRotated hloop]
  declared v hv := h.declared v (hloop.mem_iff.2 hv)

/-- Off the cycle the orbit does not go on. -/
theorem successor?_eq_none (he : e ∉ cycle) : b.successor? f e = none :=
  Option.eq_none_iff_forall_ne_some.2 fun w hw =>
    he (mem_left_of_mem_cycleEdges ((h.successor?_eq_some_iff e w).1 hw))

/-- From a vertex of the cycle the orbit goes on to the next one. -/
theorem successor?_eq_next (hk : k < cycle.length) :
    b.successor? f cycle[k] = cycle[next cycle.length k]? := by
  have hnext := next_lt hk
  rw [List.getElem?_eq_getElem hnext, h.successor?_eq_some_iff]
  exact mem_cycleEdges_iff.2
    ⟨k, hk, List.getElem?_eq_getElem hk, List.getElem?_eq_getElem hnext⟩

/-- If the face is entered where the cycle begins then the orbit goes round it. -/
theorem closes (he : b.entry? f = cycle.head?) (hne : cycle ≠ []) : b.Closes f cycle := by
  have hpos : 0 < cycle.length := List.length_pos_iff.2 hne
  have hstep : ∀ i (hi : i < cycle.length), b.orbit f i = cycle[i]? →
      b.orbit f (i + 1) = cycle[next cycle.length i]? := by
    intro i hi horbit
    rw [orbit, horbit, List.getElem?_eq_getElem hi, Option.bind_some, h.successor?_eq_next hi]
  have halong : ∀ i < cycle.length, b.orbit f i = cycle[i]? := by
    intro i
    induction i with
    | zero => exact fun _ => he.trans List.head?_eq_getElem?
    | succ i ih =>
      intro hi
      rw [hstep i (by omega) (ih (by omega)), next, if_neg (by omega)]
  refine ⟨hne, halong, ?_, fun i hi hlt hback => ?_, h.declared⟩
  · have hlast := hstep (cycle.length - 1) (by omega) (halong _ (by omega))
    rw [next, if_pos (by omega), Nat.sub_add_cancel hpos] at hlast
    rw [hlast, he, List.head?_eq_getElem?]
  · rw [halong i hlt, he, List.head?_eq_getElem?] at hback
    exact hi.ne' ((List.getElem?_inj hlt h.nodup).1 hback)

/-- If the face is entered on the cycle then the orbit goes round it. -/
theorem exists_closes (he : b.Enters f cycle) :
    ∃ loop, b.Closes f loop ∧ loop.IsRotated cycle := by
  obtain ⟨e, hmem, hentry⟩ := he
  obtain ⟨s, t, rfl⟩ := List.append_of_mem hmem
  have hrotated : (s ++ e :: t).IsRotated (e :: t ++ s) := List.isRotated_append
  exact ⟨e :: t ++ s, (h.of_isRotated hrotated).closes hentry (by simp), hrotated.symm⟩

variable [LawfulBEq V] [LawfulBEq F]

omit [LawfulBEq V] [LawfulBEq F] in
/-- An orbit that closes goes round the cycle, on which the face is entered. -/
theorem isRotated_of_closes (hcloses : b.Closes f loop) :
    loop.IsRotated cycle ∧ b.Enters f cycle := by
  have hedges : ∀ x y, (x, y) ∈ cycleEdges loop → (x, y) ∈ cycleEdges cycle := fun x y hxy =>
    (h.successor?_eq_some_iff x y).1 (hcloses.mem_cycleEdges_iff.1 hxy).2
  obtain ⟨e, rest, rfl⟩ := List.exists_cons_of_ne_nil hcloses.ne_nil
  obtain ⟨x, hx⟩ := exists_mem_cycleEdges_left (List.mem_cons_self : e ∈ e :: rest)
  have he : e ∈ cycle := mem_left_of_mem_cycleEdges (hedges e x hx)
  have hentry : b.entry? f = some e := hcloses.along 0 (by simp)
  exact ⟨(isRotated_of_cycleEdges h.nodup hcloses.nodup he List.mem_cons_self hedges).symm,
    e, he, hentry⟩

omit [LawfulBEq V] [LawfulBEq F] in
/-- The orbit closes just when the face is entered on the cycle. -/
theorem exists_closes_iff : (∃ loop, b.Closes f loop) ↔ b.Enters f cycle := by
  constructor
  · rintro ⟨loop, hcloses⟩
    exact (h.isRotated_of_closes hcloses).2
  · intro he
    obtain ⟨loop, hcloses, -⟩ := h.exists_closes he
    exact ⟨loop, hcloses⟩

omit [LawfulBEq V] in
/-- A first flag that counts leads to a vertex of the cycle. -/
theorem enters_of_not_firstReplaced [Hashable F] (hf : f ∈ b.faceLabels)
    (hfirst : ¬ b.FirstReplaced f) : b.Enters f cycle := by
  obtain ⟨e, he⟩ := exists_entry?_of_mem hf
  obtain ⟨u, hflag, -⟩ := exists_first_flag he
  have hcounts : b.successor? f u = some e := not_not.1 fun hne => hfirst ⟨_, hflag, hne⟩
  exact ⟨e, mem_right_of_mem_cycleEdges ((h.successor?_eq_some_iff u e).1 hcounts), he⟩

/-- Entered off the cycle, a face fails at its entry, from which no flag that counts leads on. -/
theorem fails_iff {err : MeshError} (he : b.entry? f = some e) (hoff : e ∉ cycle) :
    b.Fails f k err ↔
      (e ∈ b.labels ∧ err = .missingFlag k) ∨ (e ∉ b.labels ∧ err = .undeclaredVertex k) := by
  have hhere : b.Arrives f 0 e := arrives_zero_iff.2 he
  obtain ⟨u, -, hr⟩ := exists_first_flag he
  have hsoon : 0 < (b.sources f).length := List.length_pos_of_mem (mem_sources.2 ⟨e, hr⟩)
  have hmissing (hknown : e ∈ b.labels) : b.Fails f k (.missingFlag k) :=
    .breaksOff hhere hknown (h.successor?_eq_none hoff) hsoon
  have hunknown (hnot : e ∉ b.labels) : b.Fails f k (.undeclaredVertex k) :=
    .undeclared hhere hnot hsoon
  constructor
  · intro hfails
    rcases Classical.em (e ∈ b.labels) with hknown | hnot
    · exact .inl ⟨hknown, hfails.unique (hmissing hknown)⟩
    · exact .inr ⟨hnot, hfails.unique (hunknown hnot)⟩
  · rintro (⟨hknown, rfl⟩ | ⟨hnot, rfl⟩)
    · exact hmissing hknown
    · exact hunknown hnot

end GoesRound

end Cycles

/-! ## Assembling the cycles -/

section Assemble

variable [BEq V] [Hashable V] [BEq F] [Hashable F] {b : Blueprint V F} {f : F} {k : Nat}
  {cycle : F → List V} {name : Text} {m : Mesh}

/-- The mesh has the declared vertices and for its faces the cycles, wherever these begin. -/
structure Traverses (b : Blueprint V F) (name : Text) (cycle : F → List V) (m : Mesh) : Prop where
  name : m.name = name
  vertices : m.vertices = b.positions
  faces : List.Forall₂ (fun f face => face.IsRotated ((cycle f).map b.indexOf)) b.faceLabels m.faces

/-- The first face that is not entered on its cycle is reported, with what is wrong there. -/
inductive Misses (b : Blueprint V F) (cycle : F → List V) : MeshError → Prop where
  /-- The face is entered at a declared vertex, which no flag leaves. -/
  | missingFlag {k : Nat} {f : F} {e : V} (label : b.faceLabels[k]? = some f)
      (before : ∀ g ∈ b.faceLabels.take k, b.Enters g (cycle g))
      (entry : b.entry? f = some e) (off : e ∉ cycle f) (known : e ∈ b.labels) :
      Misses b cycle (.missingFlag k)
  /-- The face is entered at a vertex that is not declared. -/
  | undeclaredVertex {k : Nat} {f : F} {e : V} (label : b.faceLabels[k]? = some f)
      (before : ∀ g ∈ b.faceLabels.take k, b.Enters g (cycle g))
      (entry : b.entry? f = some e) (off : e ∉ cycle f) (unknown : e ∉ b.labels) :
      Misses b cycle (.undeclaredVertex k)

variable [LawfulBEq V] [LawfulBEq F]

/-- What is assembled goes round the cycles. -/
theorem traverses_of_assemble (h : ∀ f ∈ b.faceLabels, b.GoesRound f (cycle f))
    (hm : b.assemble name = .ok m) : b.Traverses name cycle m := by
  obtain ⟨fs, hfs, rfl⟩ := Except.map_eq_ok.1 hm
  have hloops := assembleFaces_eq_ok_iff.1 (faces_eq_ok_iff_assembleFaces.1 hfs).2
  refine ⟨rfl, rfl, ((List.forall₂_and_left _ _).2 ⟨fun f hf => hf, hloops⟩).imp ?_⟩
  rintro f face ⟨hf, loop, hcloses, rfl⟩
  exact ((h f hf).isRotated_of_closes hcloses).1.map b.indexOf

/-- The cycles, if not too many, are assembled just when every face is entered on its own. -/
theorem exists_assemble_iff_enters (h : ∀ f ∈ b.faceLabels, b.GoesRound f (cycle f)) :
    (∃ m, b.assemble name = .ok m) ↔
      b.sizeFault? = none ∧ ∀ f ∈ b.faceLabels, b.Enters f (cycle f) := by
  constructor
  · rintro ⟨m, hm⟩
    refine ⟨(assemble_eq_ok_iff.1 hm).1, fun f hf => ?_⟩
    obtain ⟨k, hk⟩ := List.mem_iff_getElem?.1 hf
    obtain ⟨loop, hcloses, -⟩ := exists_closes_of_assemble hm hk
    exact (h f hf).exists_closes_iff.1 ⟨loop, hcloses⟩
  · rintro ⟨hsize, henters⟩
    cases hassemble : b.assemble name with
    | ok m => exact ⟨m, rfl⟩
    | error err =>
      rcases assemble_eq_error_iff.1 hassemble with hfault | ⟨-, k, f, hk, -, hfails⟩
      · simp [hsize] at hfault
      have hf := List.mem_of_getElem? hk
      obtain ⟨loop, hcloses⟩ := (h f hf).exists_closes_iff.2 (henters f hf)
      exact absurd hcloses hfails.not_closes

/-- Assembly of cycles fails at the first face that is not entered on its cycle. -/
theorem failsFirst_iff_misses (h : ∀ f ∈ b.faceLabels, b.GoesRound f (cycle f))
    {err : MeshError} : b.FailsFirst err ↔ b.Misses cycle err := by
  constructor
  · rintro ⟨k, f, hk, hbefore, hfails⟩
    have hf := List.mem_of_getElem? hk
    have hentered : ∀ g ∈ b.faceLabels.take k, b.Enters g (cycle g) := fun g hg =>
      (h g (List.mem_of_mem_take hg)).exists_closes_iff.1 (hbefore g hg)
    obtain ⟨e, he⟩ := exists_entry?_of_mem hf
    have hoff : e ∉ cycle f := fun hmem => by
      obtain ⟨loop, hcloses⟩ := (h f hf).exists_closes_iff.2 ⟨e, hmem, he⟩
      exact hfails.not_closes hcloses
    rcases ((h f hf).fails_iff he hoff).1 hfails with ⟨hknown, rfl⟩ | ⟨hunknown, rfl⟩
    · exact .missingFlag hk hentered he hoff hknown
    · exact .undeclaredVertex hk hentered he hoff hunknown
  · have hclosed : ∀ {k}, (∀ g ∈ b.faceLabels.take k, b.Enters g (cycle g)) →
        ∀ g ∈ b.faceLabels.take k, ∃ loop, b.Closes g loop := fun hbefore g hg =>
      (h g (List.mem_of_mem_take hg)).exists_closes_iff.2 (hbefore g hg)
    rintro (⟨hk, hbefore, he, hoff, hknown⟩ | ⟨hk, hbefore, he, hoff, hunknown⟩)
    · exact ⟨_, _, hk, hclosed hbefore,
        ((h _ (List.mem_of_getElem? hk)).fails_iff he hoff).2 (.inl ⟨hknown, rfl⟩)⟩
    · exact ⟨_, _, hk, hclosed hbefore,
        ((h _ (List.mem_of_getElem? hk)).fails_iff he hoff).2 (.inr ⟨hunknown, rfl⟩)⟩

theorem assemble_eq_error_iff_misses (h : ∀ f ∈ b.faceLabels, b.GoesRound f (cycle f))
    {err : MeshError} :
    b.assemble name = .error err ↔
      b.sizeFault? = some err ∨ b.sizeFault? = none ∧ b.Misses cycle err := by
  rw [assemble_eq_error_iff, failsFirst_iff_misses h]

/-- Settling keeps the labels, so that it changes nothing about the size. -/
theorem sizeFault?_settled (b : Blueprint V F) : b.settled.sizeFault? = b.sizeFault? := by
  rw [sizeFault?_eq, sizeFault?_eq, b.perm_faceLabels_settled.length_eq]
  rfl

omit [Hashable F] in
/-- Settling keeps the cycles. -/
theorem GoesRound.settled {ring : List V} (h : b.GoesRound f ring) :
    b.settled.GoesRound f ring where
  nodup := h.nodup
  successor?_eq_some_iff v w := by rw [successor?_settled, h.successor?_eq_some_iff]
  declared := h.declared

omit [Hashable F] in
/-- If no flag replaces another one then none replaces the first of a face. -/
theorem Unreplaced.not_firstReplaced (h : b.Unreplaced) : ¬ b.FirstReplaced f := by
  rintro ⟨⟨g, u, e⟩, hflag, hne⟩
  obtain rfl : g = f := by simpa using List.find?_some hflag
  exact hne (h.successor?_eq_some_iff.2 (List.mem_of_find?_eq_some hflag))

/-- A blueprint that is settled, and not too large, is assembled if its faces are cycles. -/
theorem exists_assemble_settled (name : Text) (h : ∀ f ∈ b.faceLabels, b.GoesRound f (cycle f))
    (hsize : b.sizeFault? = none) :
    ∃ m, b.settled.assemble name = .ok m ∧ b.settled.Traverses name cycle m := by
  have hsettled : ∀ f ∈ b.settled.faceLabels, b.settled.GoesRound f (cycle f) := fun f hf =>
    (h f (mem_faceLabels_settled.1 hf)).settled
  obtain ⟨m, hm⟩ := (exists_assemble_iff_enters hsettled).2
    ⟨b.sizeFault?_settled.trans hsize, fun f hf =>
      (hsettled f hf).enters_of_not_firstReplaced hf b.unreplaced_settled.not_firstReplaced⟩
  exact ⟨m, hm, traverses_of_assemble hsettled hm⟩

/--
Let the flags that count go once round a cycle of declared vertices in each face, and let there
be no more vertices and faces than a solid may have.  Without the other flags the blueprint is
assembled from these cycles.  With them it is assembled just when each face is entered on its
cycle, and then from the same cycles; and so it is if every first flag counts.  Otherwise the
first face that is not entered on its cycle is reported.
-/
theorem assembles_iff_enters (name : Text)
    (h : ∀ f ∈ b.faceLabels, b.GoesRound f (cycle f)) :
    (b.sizeFault? = none →
      ∃ m, b.settled.assemble name = .ok m ∧ b.settled.Traverses name cycle m) ∧
    b.settled.faceLabels.Perm b.faceLabels ∧
    (∀ m, b.assemble name = .ok m → b.Traverses name cycle m) ∧
    ((∃ m, b.assemble name = .ok m) ↔
      b.sizeFault? = none ∧ ∀ f ∈ b.faceLabels, b.Enters f (cycle f)) ∧
    (∀ err, b.assemble name = .error err ↔
      b.sizeFault? = some err ∨ b.sizeFault? = none ∧ b.Misses cycle err) ∧
    (b.sizeFault? = none → (∀ f ∈ b.faceLabels, ¬ b.FirstReplaced f) →
      ∃ m, b.assemble name = .ok m) :=
  ⟨exists_assemble_settled name h, b.perm_faceLabels_settled, fun _ => traverses_of_assemble h,
    exists_assemble_iff_enters h, fun _ => assemble_eq_error_iff_misses h, fun hsize hfirst =>
      (exists_assemble_iff_enters h).2 ⟨hsize, fun f hf =>
        (h f hf).enters_of_not_firstReplaced hf (hfirst f hf)⟩⟩

end Assemble

/-! ## A triangle with another first flag -/

/-- The flags of a triangle among four vertices, behind one that leads from 0 to `first`. -/
def rerouted (first : Nat) : Blueprint Nat Nat where
  vertices := [(0, .zero), (1, .zero), (2, .zero), (3, .zero)]
  flags := [⟨0, 0, first⟩, ⟨0, 0, 1⟩, ⟨0, 1, 2⟩, ⟨0, 2, 0⟩]

section Rerouted

variable {first : Nat}

theorem labels_rerouted : (rerouted first).labels = [0, 1, 2, 3] := by
  rw [labels_eq_eraseDups]
  rfl

theorem faceLabels_rerouted : (rerouted first).faceLabels = [0] := by
  rw [faceLabels_eq_eraseDups]
  rfl

theorem sizeFault?_rerouted : (rerouted first).sizeFault? = none := by
  rw [sizeFault?_eq, labels_rerouted, faceLabels_rerouted]
  rfl

theorem successor?_rerouted (first v : Nat) :
    (rerouted first).successor? 0 v =
      if v = 2 then some 0 else if v = 1 then some 2 else if v = 0 then some 1 else none := by
  have hflags : (rerouted first).flags.reverse =
      [⟨0, 2, 0⟩, ⟨0, 1, 2⟩, ⟨0, 0, 1⟩, ⟨0, 0, first⟩] := rfl
  rw [successor?, hflags]
  split_ifs with htwo hone hzero
  · simp [htwo]
  · simp [hone]
  · simp [hzero]
  · simp [Ne.symm htwo, Ne.symm hone, Ne.symm hzero]

/-- The flags that count are the triangle. -/
theorem goesRound_rerouted : (rerouted first).GoesRound 0 [0, 1, 2] where
  nodup := by decide
  successor?_eq_some_iff v w := by
    rw [successor?_rerouted, mem_cycleEdges_three]
    grind
  declared v hv := by
    rw [labels_rerouted]
    exact List.mem_of_mem_dropLast hv

/-- If the flag that is replaced leads to the triangle then this is assembled. -/
theorem assembles_iff_enters_rerouted :
    (∀ f ∈ (rerouted 2).faceLabels, (rerouted 2).GoesRound f [0, 1, 2]) ∧
    (rerouted 2).FirstReplaced 0 ∧
    ∃ m, (rerouted 2).assemble [] = .ok m ∧ (rerouted 2).Traverses [] (fun _ => [0, 1, 2]) m := by
  have hround : ∀ f ∈ (rerouted 2).faceLabels, (rerouted 2).GoesRound f [0, 1, 2] := by
    rw [faceLabels_rerouted]
    exact List.forall_mem_singleton.2 goesRound_rerouted
  obtain ⟨-, -, htraverses, hiff, -, -⟩ := assembles_iff_enters [] hround
  have henters : ∀ f ∈ (rerouted 2).faceLabels, (rerouted 2).Enters f [0, 1, 2] := by
    rw [faceLabels_rerouted]
    exact List.forall_mem_singleton.2 ⟨2, by decide, rfl⟩
  obtain ⟨m, hm⟩ := hiff.2 ⟨sizeFault?_rerouted, henters⟩
  exact ⟨hround, ⟨⟨0, 0, 2⟩, rfl, by decide⟩, m, hm, htraverses m hm⟩

/--
If it leads elsewhere then the face is not assembled, although without that flag it would be.
-/
theorem not_assembled_rerouted :
    (∀ f ∈ (rerouted 3).faceLabels, (rerouted 3).GoesRound f [0, 1, 2]) ∧
    (rerouted 3).assemble [] = .error (.missingFlag 0) ∧
    ∃ m, (rerouted 3).settled.assemble [] = .ok m := by
  have hround : ∀ f ∈ (rerouted 3).faceLabels, (rerouted 3).GoesRound f [0, 1, 2] := by
    rw [faceLabels_rerouted]
    exact List.forall_mem_singleton.2 goesRound_rerouted
  obtain ⟨m, hm, -⟩ := exists_assemble_settled [] hround sizeFault?_rerouted
  refine ⟨hround, (assemble_eq_error_iff_misses hround).2 (.inr ⟨sizeFault?_rerouted, ?_⟩), m, hm⟩
  refine .missingFlag (f := 0) (e := 3) ?_ ?_ rfl (by decide) ?_
  · rw [faceLabels_rerouted]
    rfl
  · simp
  · rw [labels_rerouted]
    decide

end Rerouted

end Blueprint

end Polyhedra
