import Polyhedra.Proofs.Surface.Walk

/-!
# Orbits

Nothing is assumed of the flags of a face.  From the vertex to which the first of them
leads, the flags that count lead on from vertex to vertex: the orbit of the face
(`Blueprint.orbit`).  It comes back to its entry, or meets a vertex that is not
declared or that no flag leaves, or goes on among declared vertices for ever without
coming back.  Assembly follows the orbit for as many steps as the face has flags that
count.  Up to its end an orbit meets no vertex twice, so these steps are enough for
every orbit that comes back (`Blueprint.Ends.length_le`).  They may be one too few to
tell an orbit that breaks off from one that goes on for ever, but only if the first
flag of the face was replaced (`Blueprint.firstReplaced_of_arrives`).

## Main results

* `Blueprint.endless_or_exists_ends` — an orbit comes to an end or goes on for ever.
* `Blueprint.assembleFaces_eq_ok_iff`, `Blueprint.assembleFaces_eq_error_iff` — what assembly
  makes of the orbits of the faces.
* `Blueprint.assemble_follows_orbits` — what a blueprint is assembled to.
-/

namespace Polyhedra

/-- Looking for an entry and taking something from it may be done in one go. -/
theorem findSome?_ite_eq_map_find? {α β : Type} (p : α → Bool) (g : α → β) (l : List α) :
    (l.findSome? fun a => if p a then some (g a) else none) = (l.find? p).map g := by
  induction l with
  | nil => rfl
  | cons a l ih =>
    cases h : p a with
    | true => simp [h]
    | false => simp [h, ih]

namespace Blueprint

variable {V F : Type}

/-! ## The orbit of a face -/

section Orbit

variable [BEq F]

/-- The vertex to which the first flag of a face leads. -/
def entry? (b : Blueprint V F) (f : F) : Option V :=
  (b.flags.find? fun flag => flag.face == f).map Flag.target

variable [BEq V]

/-- The vertex to which the last of the flags leads that leave `v` in the face `f`. -/
def successor? (b : Blueprint V F) (f : F) (v : V) : Option V :=
  (b.flags.reverse.find? fun flag => flag.face == f && flag.source == v).map Flag.target

/-- The vertex to which `n` steps lead from the entry of a face along the flags that count. -/
def orbit (b : Blueprint V F) (f : F) : Nat → Option V
  | 0 => b.entry? f
  | n + 1 => (b.orbit f n).bind (b.successor? f)

/-- The different vertices that flags of the face leave: one for each flag that counts. -/
def sources (b : Blueprint V F) (f : F) : List V :=
  ((b.flags.filter fun flag => flag.face == f).map Flag.source).eraseDups

/-- A later flag has taken the place of the first flag of the face. -/
def FirstReplaced (b : Blueprint V F) (f : F) : Prop :=
  ∃ flag, (b.flags.find? fun flag => flag.face == f) = some flag ∧
    b.successor? f flag.source ≠ some flag.target

variable [Hashable V]

/--
After `n` steps the orbit of the face is at `v`.  It has met only declared vertices
until then, and has not come back to its entry.
-/
structure Arrives (b : Blueprint V F) (f : F) (n : Nat) (v : V) : Prop where
  here : b.orbit f n = some v
  declared : ∀ k < n, ∀ x, b.orbit f k = some x → x ∈ b.labels
  away : ∀ k, 0 < k → k ≤ n → b.orbit f k ≠ b.entry? f

/-- The orbit of the face does not go on from where it has arrived. -/
structure Ends (b : Blueprint V F) (f : F) (n : Nat) (v : V) : Prop extends b.Arrives f n v where
  stops : v ∈ b.labels → b.successor? f v = none ∨ b.successor? f v = b.entry? f

/-- The vertices of the orbit of the face, all declared, up to its first return to the entry. -/
structure Closes (b : Blueprint V F) (f : F) (loop : List V) : Prop where
  ne_nil : loop ≠ []
  along : ∀ k < loop.length, b.orbit f k = loop[k]?
  back : b.orbit f loop.length = b.entry? f
  away : ∀ k, 0 < k → k < loop.length → b.orbit f k ≠ b.entry? f
  declared : ∀ v ∈ loop, v ∈ b.labels

/-- Why the face at position `k` among the faces cannot be assembled. -/
inductive Fails (b : Blueprint V F) (f : F) (k : Nat) : MeshError → Prop where
  /-- The orbit meets a vertex that is not declared. -/
  | undeclared {n : Nat} {v : V} (arrives : b.Arrives f n v) (unknown : v ∉ b.labels)
      (soon : n < (b.sources f).length) : Fails b f k (.undeclaredVertex k)
  /-- The orbit meets a declared vertex that no flag leaves. -/
  | breaksOff {n : Nat} {v : V} (arrives : b.Arrives f n v) (known : v ∈ b.labels)
      (last : b.successor? f v = none) (soon : n < (b.sources f).length) :
      Fails b f k (.missingFlag k)
  /-- The orbit goes on for ever among declared vertices and does not come back. -/
  | endless (arrives : ∀ n, ∃ v, b.Arrives f n v) : Fails b f k (.openFace k (b.sources f).length)
  /-- The orbit has made use of all flags that count when it meets its end. -/
  | exhausted {v : V} (arrives : b.Arrives f (b.sources f).length v)
      (ends : v ∈ b.labels → b.successor? f v = none) :
      Fails b f k (.openFace k (b.sources f).length)

end Orbit

variable [BEq V] [Hashable V] [BEq F] {b : Blueprint V F} {f : F} {k m n : Nat} {v w : V}

/-! ## Arriving -/

theorem arrives_zero_iff : b.Arrives f 0 v ↔ b.entry? f = some v := by
  constructor
  · exact fun h => h.here
  · refine fun h => ⟨h, fun k hk => ?_, fun k hpos hk => ?_⟩
    · omega
    · omega

namespace Arrives

/-- From a declared vertex the orbit goes on, if not back to its entry. -/
theorem step (h : b.Arrives f n v) (hv : v ∈ b.labels) (hw : b.successor? f v = some w)
    (haway : b.successor? f v ≠ b.entry? f) : b.Arrives f (n + 1) w := by
  have hnext : b.orbit f (n + 1) = b.successor? f v := by
    rw [orbit, h.here]
    rfl
  refine ⟨hnext.trans hw, fun k hk x hx => ?_, fun k hpos hk => ?_⟩
  · rcases Nat.lt_succ_iff_lt_or_eq.1 hk with hlt | rfl
    · exact h.declared k hlt x hx
    · rwa [← Option.some.inj (h.here.symm.trans hx)]
  · rcases Nat.le_succ_iff.1 hk with hle | rfl
    · exact h.away k hpos hle
    · rwa [hnext]

/-- Where the orbit has arrived it came from a declared vertex by a step that was no return. -/
theorem exists_before (h : b.Arrives f (n + 1) w) :
    ∃ v, b.Arrives f n v ∧ v ∈ b.labels ∧ b.successor? f v = some w ∧
      b.successor? f v ≠ b.entry? f := by
  obtain ⟨v, hv, hw⟩ := Option.bind_eq_some_iff.1 h.here
  refine ⟨v, ⟨hv, fun k hk => ?_, fun k hpos hk => ?_⟩, ?_, hw, ?_⟩
  · exact h.declared k (by omega)
  · exact h.away k hpos (by omega)
  · exact h.declared n (by omega) v hv
  · have haway := h.away (n + 1) (by omega) le_rfl
    rwa [h.here, ← hw] at haway

theorem exists_of_le (h : b.Arrives f n v) (hm : m ≤ n) : ∃ w, b.Arrives f m w := by
  induction n generalizing v with
  | zero => exact ⟨v, by rwa [Nat.le_zero.1 hm]⟩
  | succ n ih =>
    rcases Nat.le_succ_iff.1 hm with hle | rfl
    · obtain ⟨u, hu, -⟩ := h.exists_before
      exact ih hu hle
    · exact ⟨v, h⟩

theorem unique (h : b.Arrives f n v) (h' : b.Arrives f n w) : v = w :=
  Option.some.inj (h.here.symm.trans h'.here)

end Arrives

/-! ## The end of an orbit -/

namespace Ends

/-- An orbit does not go on from its end. -/
theorem not_arrives (h : b.Ends f n v) (hlt : n < m) : ¬ b.Arrives f m w := by
  intro hm
  obtain ⟨x, hx⟩ := hm.exists_of_le hlt
  obtain ⟨u, hu, hmem, hnext, haway⟩ := hx.exists_before
  obtain rfl := hu.unique h.toArrives
  rcases h.stops hmem with hnone | hback
  · rw [hnone] at hnext
    simp at hnext
  · exact haway hback

/-- An orbit has one end. -/
theorem unique (h : b.Ends f n v) (h' : b.Ends f m w) : n = m ∧ v = w := by
  have heq : n = m := by
    rcases Nat.lt_trichotomy n m with hlt | heq | hlt
    · exact absurd h'.toArrives (h.not_arrives hlt)
    · exact heq
    · exact absurd h.toArrives (h'.not_arrives hlt)
  subst heq
  exact ⟨rfl, h.toArrives.unique h'.toArrives⟩

end Ends

/-- An orbit comes to an end or goes on for ever. -/
theorem endless_or_exists_ends (h : b.Arrives f n v) :
    (∀ m, ∃ w, b.Arrives f m w) ∨ ∃ m w, n ≤ m ∧ b.Ends f m w := by
  rcases Classical.em (∃ m w, n ≤ m ∧ b.Ends f m w) with hends | hnone
  · exact .inr hends
  · have hon : ∀ k, ∃ w, b.Arrives f (n + k) w := by
      intro k
      induction k with
      | zero => exact ⟨v, h⟩
      | succ k ih =>
        obtain ⟨w, hw⟩ := ih
        have hgoes : ¬ (w ∈ b.labels → b.successor? f w = none ∨ b.successor? f w = b.entry? f) :=
          fun hstops => hnone ⟨n + k, w, Nat.le_add_right n k, hw, hstops⟩
        obtain ⟨hmem, hstep⟩ := Classical.not_imp.1 hgoes
        obtain ⟨hsome, haway⟩ := not_or.1 hstep
        obtain ⟨x, hx⟩ := Option.ne_none_iff_exists'.1 hsome
        exact ⟨x, hw.step hmem hx haway⟩
    refine .inl fun m => ?_
    obtain ⟨w, hw⟩ := hon m
    exact hw.exists_of_le (Nat.le_add_left m n)

omit [Hashable V] in
/-- What repeats itself along an orbit does so for as long as the orbit lasts. -/
theorem orbit_add_congr {i j : Nat} (h : b.orbit f i = b.orbit f j) (k : Nat) :
    b.orbit f (i + k) = b.orbit f (j + k) := by
  induction k with
  | zero => exact h
  | succ k ih => rw [← Nat.add_assoc, ← Nat.add_assoc, orbit, orbit, ih]

/-- Up to its end an orbit meets no vertex twice. -/
theorem Ends.orbit_injective (h : b.Ends f n v) {i j : Nat} (hij : i < j) (hj : j ≤ n) :
    b.orbit f i ≠ b.orbit f j := by
  intro heq
  -- otherwise the end was met before, and one step later the orbit was still on its way
  have hmet : b.orbit f (i + (n - j)) = some v := by
    rw [orbit_add_congr heq, Nat.add_sub_cancel' hj]
    exact h.here
  have hafter : b.orbit f (i + (n - j) + 1) = b.successor? f v := by
    rw [orbit, hmet]
    rfl
  have hv := h.declared _ (by omega) v hmet
  rcases h.stops hv with hnone | hback
  · obtain ⟨x, hx⟩ := h.toArrives.exists_of_le (show i + (n - j) + 1 ≤ n by omega)
    rw [hnone, hx.here] at hafter
    simp at hafter
  · exact h.away _ (by omega) (by omega) (hafter.trans hback)

/-! ## The flags that count -/

section Lawful

variable [LawfulBEq V] [Hashable F] [LawfulBEq F]

theorem getElem?_successors_eq (b : Blueprint V F) (f : F) (v : V) :
    (b.successors.getD f ∅)[v]? = b.successor? f v := by
  rw [getElem?_successors, successor?]
  exact findSome?_ite_eq_map_find? (fun flag : Flag V F => flag.face == f && flag.source == v) _ _

omit [Hashable F] in
theorem mem_sources : v ∈ b.sources f ↔ ∃ w, b.net.Runs f v w := by
  rw [sources, List.mem_eraseDups]
  constructor
  · intro h
    obtain ⟨⟨g, x, w⟩, hmem, rfl⟩ := List.mem_map.1 h
    obtain ⟨hflag, hface⟩ := List.mem_filter.1 hmem
    obtain rfl : g = f := eq_of_beq hface
    exact ⟨w, hflag⟩
  · rintro ⟨w, hr⟩
    exact List.mem_map.2 ⟨⟨f, v, w⟩, List.mem_filter.2 ⟨hr, by simp⟩, rfl⟩

omit [Hashable F] in
/-- A vertex is followed by one to which some flag leads. -/
theorem runs_of_successor? (h : b.successor? f v = some w) : b.net.Runs f v w := by
  obtain ⟨⟨g, u, x⟩, hflag, rfl⟩ := Option.map_eq_some_iff.1 h
  have hboth := List.find?_some hflag
  simp only [Bool.and_eq_true, beq_iff_eq] at hboth
  obtain ⟨rfl, rfl⟩ := hboth
  exact List.mem_reverse.1 (List.mem_of_find?_eq_some hflag)

omit [Hashable F] in
/-- A vertex has a successor if some flag leaves it. -/
theorem exists_successor?_iff : (∃ w, b.successor? f v = some w) ↔ v ∈ b.sources f := by
  rw [mem_sources]
  constructor
  · exact fun ⟨w, hw⟩ => ⟨w, runs_of_successor? hw⟩
  · rintro ⟨w, hr⟩
    rw [← Option.isSome_iff_exists, successor?, Option.isSome_map, List.find?_isSome]
    exact ⟨⟨f, v, w⟩, List.mem_reverse.2 hr, by simp⟩

omit [LawfulBEq V] [Hashable F] in
/-- A face is entered along its first flag. -/
theorem exists_first_flag {e : V} (he : b.entry? f = some e) :
    ∃ v, (b.flags.find? fun flag => flag.face == f) = some ⟨f, v, e⟩ ∧ b.net.Runs f v e := by
  obtain ⟨⟨g, v, w⟩, hflag, rfl⟩ := Option.map_eq_some_iff.1 he
  obtain rfl : g = f := by simpa using List.find?_some hflag
  exact ⟨v, hflag, List.mem_of_find?_eq_some hflag⟩

/-- The table of a face has one entry for each flag that counts. -/
theorem size_successors (b : Blueprint V F) (f : F) :
    (b.successors.getD f ∅).size = (b.sources f).length := by
  rw [← Std.HashMap.length_keys]
  refine ((List.perm_ext_iff_of_nodup Std.HashMap.nodup_keys (nodup_eraseDups _)).2
    fun v => ?_).length_eq
  rw [Std.HashMap.mem_keys, Std.HashMap.mem_iff_isSome_getElem?, getElem?_successors_eq,
    Option.isSome_iff_exists]
  exact exists_successor?_iff

/-! ## How long an orbit can be -/

namespace Ends

variable (h : b.Ends f n v)
include h

omit [LawfulBEq V] [Hashable F] [LawfulBEq F] in
theorem nodup_way (hm : m ≤ n + 1) : ((List.range m).map (b.orbit f)).Nodup := by
  refine List.nodup_range.map_on fun i hi j hj heq => ?_
  rw [List.mem_range] at hi hj
  rcases Nat.lt_trichotomy i j with hlt | hij | hlt
  · exact absurd heq (h.orbit_injective hlt (by omega))
  · exact hij
  · exact absurd heq.symm (h.orbit_injective hlt (by omega))

omit [Hashable F] in
/-- In front of its end an orbit meets only vertices that flags leave. -/
theorem way_subset : (List.range n).map (b.orbit f) ⊆ (b.sources f).map some := by
  intro x hx
  obtain ⟨k, hk, rfl⟩ := List.mem_map.1 hx
  obtain ⟨w, hw⟩ := h.toArrives.exists_of_le (List.mem_range.1 hk)
  obtain ⟨u, hu, -, hstep, -⟩ := hw.exists_before
  rw [hu.here]
  exact List.mem_map.2 ⟨u, exists_successor?_iff.1 ⟨w, hstep⟩, rfl⟩

omit [Hashable F] in
/-- An orbit comes to its end in no more steps than there are flags that count. -/
theorem length_le : n ≤ (b.sources f).length := by
  have hlength := (List.subperm_of_subset (h.nodup_way n.le_succ) h.way_subset).length_le
  simpa using hlength

omit [Hashable F] in
/-- An orbit that comes back makes one step fewer to the last vertex in front of its entry. -/
theorem length_lt (hv : v ∈ b.sources f) : n < (b.sources f).length := by
  have hsubset : (List.range (n + 1)).map (b.orbit f) ⊆ (b.sources f).map some := by
    rw [List.range_succ, List.map_append]
    refine List.append_subset.2 ⟨h.way_subset, ?_⟩
    simpa [h.here] using hv
  have hlength := (List.subperm_of_subset (h.nodup_way le_rfl) hsubset).length_le
  exact Nat.lt_of_succ_le (by simpa using hlength)

omit [Hashable F] in
/-- An orbit that has made use of all flags that count has met all vertices they leave. -/
theorem exists_orbit_eq (hn : (b.sources f).length ≤ n) {x : V} (hx : x ∈ b.sources f) :
    ∃ k < n, b.orbit f k = some x := by
  have hperm := (List.subperm_of_subset (h.nodup_way n.le_succ) h.way_subset).perm_of_length_le
    (by simpa using hn)
  obtain ⟨k, hk, heq⟩ := List.mem_map.1 (hperm.mem_iff.2 (List.mem_map.2 ⟨x, hx, rfl⟩))
  exact ⟨k, List.mem_range.1 hk, heq⟩

end Ends

omit [Hashable F] in
/-- If an orbit makes use of all flags that count and breaks off, the first flag does not count. -/
theorem firstReplaced_of_arrives (h : b.Arrives f (b.sources f).length v)
    (hends : v ∈ b.labels → b.successor? f v = none) : b.FirstReplaced f := by
  have hstop : b.Ends f (b.sources f).length v := ⟨h, fun hv => .inl (hends hv)⟩
  obtain ⟨e, he⟩ := h.exists_of_le (Nat.zero_le _)
  obtain ⟨u, hflag, hr⟩ := exists_first_flag (arrives_zero_iff.1 he)
  refine ⟨_, hflag, fun hnext => ?_⟩
  -- the orbit left the vertex that the first flag leaves, and did not come to the entry
  obtain ⟨k, hk, heq⟩ := hstop.exists_orbit_eq le_rfl (mem_sources.2 ⟨e, hr⟩)
  refine h.away (k + 1) (by omega) hk ?_
  rw [orbit, heq, arrives_zero_iff.1 he]
  exact hnext

/-! ## Faces that close -/

omit [LawfulBEq V] [Hashable F] [LawfulBEq F] in
/-- From each vertex of an orbit that closes the orbit goes on to the next one. -/
theorem Closes.successor?_eq_orbit {loop : List V} (h : b.Closes f loop) {i : Nat}
    (hi : loop[i]? = some v) : b.successor? f v = b.orbit f (i + 1) := by
  rw [orbit, h.along i (List.getElem?_eq_some_iff.1 hi).1, hi]
  rfl

omit [LawfulBEq V] [Hashable F] [LawfulBEq F] in
/-- An orbit that closes ends in front of its entry. -/
theorem Closes.exists_ends {loop : List V} (h : b.Closes f loop) :
    ∃ v, b.Ends f (loop.length - 1) v ∧ v ∈ b.labels ∧ b.successor? f v = b.entry? f := by
  have hpos : 0 < loop.length := List.length_pos_iff.2 h.ne_nil
  obtain ⟨v, hv⟩ : ∃ v, loop[loop.length - 1]? = some v :=
    ⟨_, List.getElem?_eq_getElem (by omega)⟩
  have hhere : b.orbit f (loop.length - 1) = some v := (h.along _ (by omega)).trans hv
  have hback : b.successor? f v = b.entry? f := by
    rw [h.successor?_eq_orbit hv, Nat.sub_add_cancel hpos]
    exact h.back
  refine ⟨v, ⟨⟨hhere, fun k hk x hx => ?_, fun k hpos hk => ?_⟩, fun _ => .inr hback⟩,
    h.declared v (List.mem_of_getElem? hv), hback⟩
  · rw [h.along k (by omega)] at hx
    exact h.declared x (List.mem_of_getElem? hx)
  · exact h.away k hpos (by omega)

/-- A face whose orbit closes is assembled: the orbit is no longer than the steps allow. -/
theorem assembleFace_of_closes {e : V} {loop : List V} (he : b.entry? f = some e)
    (h : b.Closes f loop) :
    assembleFace b.numbering (b.successors.getD f ∅) k e = .ok (loop.map b.indexOf) := by
  obtain ⟨v, hends, -, hback⟩ := h.exists_ends
  have hlt : loop.length - 1 < (b.sources f).length :=
    hends.length_lt (exists_successor?_iff.1 ⟨e, hback.trans he⟩)
  cases loop with
  | nil => exact absurd rfl h.ne_nil
  | cons e' rest =>
    obtain rfl : e = e' := Option.some.inj (he.symm.trans (h.along 0 (by simp)))
    refine follow_eq_ok (fun x hx => numbering_eq (h.declared x hx)) ?_ ?_ (fun hmem => ?_) ?_
    · refine List.isChain_iff_getElem.2 fun i hi => ?_
      rw [getElem?_successors_eq, h.successor?_eq_orbit (List.getElem?_eq_getElem _), h.along _ hi]
      exact List.getElem?_eq_getElem hi
    · rw [getElem?_successors_eq, List.getLast_eq_getElem,
        h.successor?_eq_orbit (List.getElem?_eq_getElem _), ← he, ← h.back]
      rfl
    · obtain ⟨i, hi⟩ := List.mem_iff_getElem?.1 hmem
      have hlt' := (List.getElem?_eq_some_iff.1 hi).1
      have hlen : i + 1 < (e :: rest).length := by simpa using hlt'
      exact h.away (i + 1) (by omega) hlen ((h.along (i + 1) hlen).trans (hi.trans he.symm))
    · rw [size_successors]
      simp only [List.length_cons] at hlt
      omega

/-- A face is assembled only if its orbit closes. -/
theorem closes_of_assembleFace {e : V} {face : Face} (he : b.entry? f = some e)
    (h : assembleFace b.numbering (b.successors.getD f ∅) k e = .ok face) :
    ∃ loop, b.Closes f loop ∧ face = loop.map b.indexOf := by
  obtain ⟨rest, hchain, hrest, hall⟩ := exists_walk_of_follow h
  obtain ⟨hface, hdeclared⟩ := eq_map_indexOf hall
  rw [← List.cons_append] at hchain
  -- the orbit goes along the walk, the return to the entry included
  have halong : ∀ i ≤ (e :: rest).length, b.orbit f i = ((e :: rest) ++ [e])[i]? := by
    intro i
    induction i with
    | zero => exact fun _ => he
    | succ i ih =>
      intro hi
      have hlast : i + 1 < ((e :: rest) ++ [e]).length := by
        rw [List.length_append]
        exact Nat.lt_succ_of_le hi
      have hstep := List.isChain_iff_getElem.1 hchain i hlast
      rw [getElem?_successors_eq] at hstep
      rw [orbit, ih (by omega), List.getElem?_eq_getElem (by omega), Option.bind_some, hstep]
      exact (List.getElem?_eq_getElem hlast).symm
  refine ⟨e :: rest, ⟨by simp, fun i hi => ?_, ?_, fun i hpos hi hback => ?_, hdeclared⟩, hface⟩
  · rw [halong i hi.le, List.getElem?_append_left hi]
  · rw [halong _ le_rfl, List.getElem?_append_right le_rfl, he]
    simp
  · obtain ⟨j, rfl⟩ : ∃ j, i = j + 1 := ⟨i - 1, by omega⟩
    rw [halong _ hi.le, List.getElem?_append_left hi, he] at hback
    exact hrest (List.mem_of_getElem? hback)

/-! ## Faces that fail -/

/-- Following the flags from where the orbit has arrived, one fails for a reason met in time. -/
theorem fault_of_follow {face steps fuel : Nat} {e : V} {err : MeshError}
    (he : b.entry? f = some e) (h : b.Arrives f n v)
    (herr : follow b.numbering (b.successors.getD f ∅) face steps e fuel v = .error err) :
    (∃ m w, m ≤ n + fuel ∧ b.Arrives f m w ∧ w ∉ b.labels ∧ err = .undeclaredVertex face) ∨
    (∃ m w, m ≤ n + fuel ∧ b.Arrives f m w ∧ w ∈ b.labels ∧ b.successor? f w = none ∧
      err = .missingFlag face) ∨
    (∃ w, b.Arrives f (n + fuel + 1) w) ∧ err = .openFace face steps := by
  have known : ∀ {x i}, b.numbering[x]? = some i → x ∈ b.labels := fun hi =>
    List.mem_of_getElem? ((getElem?_numbering b _ _).1 hi)
  have step : ∀ {n x i y}, b.Arrives f n x → b.numbering[x]? = some i →
      (b.successors.getD f ∅)[x]? = some y → ¬ (y == e) = true → b.Arrives f (n + 1) y := by
    intro n x i y hx hi hy hne
    rw [getElem?_successors_eq] at hy
    refine hx.step (known hi) hy ?_
    rw [hy, he]
    simpa using hne
  fun_induction follow b.numbering (b.successors.getD f ∅) face steps e fuel v generalizing n with
  | case1 fuel v hnone =>
    refine .inl ⟨n, v, Nat.le_add_right n fuel, h, fun hv => ?_, (Except.error.inj herr).symm⟩
    rw [numbering_eq hv] at hnone
    simp at hnone
  | case2 fuel v i hi hnone =>
    rw [getElem?_successors_eq] at hnone
    exact .inr (.inl ⟨n, v, Nat.le_add_right n fuel, h, known hi, hnone,
      (Except.error.inj herr).symm⟩)
  | case3 => simp at herr
  | case4 v i hi w hw hne =>
    exact .inr (.inr ⟨⟨w, step h hi hw hne⟩, (Except.error.inj herr).symm⟩)
  | case5 v i hi w hw hne fuel ih =>
    have hfuel : n + 1 + fuel = n + (fuel + 1) := by omega
    have hfault := ih (step h hi hw hne) (Except.map_eq_error.1 herr)
    rwa [hfuel] at hfault

namespace Fails

variable {err err' : MeshError}

omit [LawfulBEq V] [Hashable F] [LawfulBEq F] in
/-- A face fails since its orbit has no end, or by what is met at the end. -/
theorem endless_or_exists_ends (h : b.Fails f k err) :
    (∀ n, ∃ v, b.Arrives f n v) ∧ err = .openFace k (b.sources f).length ∨
    ∃ n v, b.Ends f n v ∧ (v ∈ b.labels → b.successor? f v = none) ∧
      (n < (b.sources f).length ∧ v ∉ b.labels ∧ err = .undeclaredVertex k ∨
        n < (b.sources f).length ∧ v ∈ b.labels ∧ err = .missingFlag k ∨
        n = (b.sources f).length ∧ err = .openFace k (b.sources f).length) := by
  cases h with
  | @undeclared n v arrives unknown soon =>
    exact .inr ⟨n, v, ⟨arrives, fun hv => absurd hv unknown⟩, fun hv => absurd hv unknown,
      .inl ⟨soon, unknown, rfl⟩⟩
  | @breaksOff n v arrives known last soon =>
    exact .inr ⟨n, v, ⟨arrives, fun _ => .inl last⟩, fun _ => last, .inr (.inl ⟨soon, known, rfl⟩)⟩
  | endless arrives => exact .inl ⟨arrives, rfl⟩
  | @exhausted v arrives ends =>
    exact .inr ⟨_, v, ⟨arrives, fun hv => .inl (ends hv)⟩, ends, .inr (.inr ⟨rfl, rfl⟩)⟩

omit [LawfulBEq V] [Hashable F] [LawfulBEq F] in
/-- A face fails for one reason. -/
theorem unique (h : b.Fails f k err) (h' : b.Fails f k err') : err = err' := by
  rcases h.endless_or_exists_ends with ⟨hon, rfl⟩ | ⟨n, v, hends, -, hwhy⟩ <;>
    rcases h'.endless_or_exists_ends with ⟨hon', rfl⟩ | ⟨m, w, hends', -, hwhy'⟩
  · rfl
  · obtain ⟨x, hx⟩ := hon (m + 1)
    exact absurd hx (hends'.not_arrives m.lt_succ_self)
  · obtain ⟨x, hx⟩ := hon' (n + 1)
    exact absurd hx (hends.not_arrives n.lt_succ_self)
  · obtain ⟨rfl, rfl⟩ := hends.unique hends'
    rcases hwhy with ⟨hn, hv, rfl⟩ | ⟨hn, hv, rfl⟩ | ⟨hn, rfl⟩ <;>
      rcases hwhy' with ⟨hn', hv', rfl⟩ | ⟨hn', hv', rfl⟩ | ⟨hn', rfl⟩
    all_goals first | rfl | omega | contradiction

omit [LawfulBEq V] [Hashable F] [LawfulBEq F] in
/-- The orbit of a face that fails does not close. -/
theorem not_closes (h : b.Fails f k err) {loop : List V} : ¬ b.Closes f loop := by
  intro hcloses
  obtain ⟨v, hends, hv, hback⟩ := hcloses.exists_ends
  rcases h.endless_or_exists_ends with ⟨hon, -⟩ | ⟨n, w, hends', hnone, -⟩
  · obtain ⟨x, hx⟩ := hon (loop.length - 1 + 1)
    exact hends.not_arrives (Nat.lt_succ_self _) hx
  · obtain ⟨-, rfl⟩ := hends.unique hends'
    obtain ⟨e, he⟩ := hends.toArrives.exists_of_le (Nat.zero_le _)
    rw [hnone hv, arrives_zero_iff.1 he] at hback
    simp at hback

end Fails

/-- A face that is not assembled fails. -/
theorem fails_of_assembleFace {e : V} {err : MeshError} (he : b.entry? f = some e)
    (herr : assembleFace b.numbering (b.successors.getD f ∅) k e = .error err) :
    b.Fails f k err := by
  obtain ⟨u, -, hr⟩ := exists_first_flag he
  have hpos : 0 < (b.sources f).length := List.length_pos_of_mem (mem_sources.2 ⟨e, hr⟩)
  have hfault := fault_of_follow he (arrives_zero_iff.2 he) herr
  simp only [size_successors, Nat.zero_add, Nat.sub_add_cancel hpos] at hfault
  rcases hfault with ⟨m, w, hm, hw, hnot, rfl⟩ | ⟨m, w, hm, hw, hmem, hnone, rfl⟩ | ⟨⟨w, hw⟩, rfl⟩
  · exact .undeclared hw hnot (by omega)
  · exact .breaksOff hw hmem hnone (by omega)
  · rcases endless_or_exists_ends hw with hon | ⟨m, x, hle, hends⟩
    · exact .endless hon
    · obtain rfl := Nat.le_antisymm hle hends.length_le
      refine .exhausted hends.toArrives fun hx => ?_
      rcases hends.stops hx with hnone | hback
      · exact hnone
      · have hlt := hends.length_lt (exists_successor?_iff.1 ⟨e, hback.trans he⟩)
        omega

/-! ## All faces -/

omit [BEq V] [Hashable V] [LawfulBEq V] in
/-- A face is entered where its first flag leads. -/
theorem entry?_of_mem_zipIdx {e : V} (h : ((f, e), k) ∈ b.entries.zipIdx) :
    b.entry? f = some e := by
  have hlookup :=
    lookup_of_mem_firstByLabel (List.mem_of_getElem? (List.mem_zipIdx_iff_getElem?.1 h))
  rw [List.lookup_eq_findSome?, List.findSome?_map] at hlookup
  rw [← hlookup, entry?]
  refine (findSome?_ite_eq_map_find? (fun flag : Flag V F => flag.face == f) _ _).symm.trans ?_
  simp only [Function.comp_def, BEq.comm]

theorem assembleFace_eq_ok_iff {e : V} {face : Face} (he : b.entry? f = some e) :
    assembleFace b.numbering (b.successors.getD f ∅) k e = .ok face ↔
      ∃ loop, b.Closes f loop ∧ face = loop.map b.indexOf := by
  refine ⟨closes_of_assembleFace he, ?_⟩
  rintro ⟨loop, hcloses, rfl⟩
  exact assembleFace_of_closes he hcloses

theorem assembleFace_eq_error_iff {e : V} {err : MeshError} (he : b.entry? f = some e) :
    assembleFace b.numbering (b.successors.getD f ∅) k e = .error err ↔ b.Fails f k err := by
  refine ⟨fails_of_assembleFace he, fun hfails => ?_⟩
  cases hres : assembleFace b.numbering (b.successors.getD f ∅) k e with
  | ok face =>
    obtain ⟨loop, hcloses, -⟩ := closes_of_assembleFace he hres
    exact absurd hcloses hfails.not_closes
  | error err' => rw [hfails.unique (fails_of_assembleFace he hres)]

/-- Assembly succeeds if the orbits of all faces close, and the faces are these orbits. -/
theorem assembleFaces_eq_ok_iff {fs : List Face} :
    b.assembleFaces = .ok fs ↔
      List.Forall₂ (fun f face => ∃ loop, b.Closes f loop ∧ face = loop.map b.indexOf)
        b.faceLabels fs := by
  rw [← map_zipIdx_entries, List.forall₂_map_left_iff]
  refine mapM_eq_ok_iff.trans ⟨fun h => ?_, fun h => ?_⟩
  · refine ((List.forall₂_and_left _ _).2 ⟨fun x hx => hx, h⟩).imp ?_
    rintro ⟨⟨f, e⟩, k⟩ face ⟨hx, hface⟩
    exact (assembleFace_eq_ok_iff (entry?_of_mem_zipIdx hx)).1 hface
  · refine ((List.forall₂_and_left _ _).2 ⟨fun x hx => hx, h⟩).imp ?_
    rintro ⟨⟨f, e⟩, k⟩ face ⟨hx, hcloses⟩
    exact (assembleFace_eq_ok_iff (entry?_of_mem_zipIdx hx)).2 hcloses

/-- Assembly fails at the first face whose orbit does not close. -/
theorem assembleFaces_eq_error_iff {err : MeshError} :
    b.assembleFaces = .error err ↔
      ∃ k f, b.faceLabels[k]? = some f ∧ (∀ g ∈ b.faceLabels.take k, ∃ loop, b.Closes g loop) ∧
        b.Fails f k err := by
  have hposition : ∀ {k} {x : (F × V) × Nat}, b.entries.zipIdx[k]? = some x → x.2 = k := by
    intro k x hx
    rw [List.getElem?_zipIdx] at hx
    obtain ⟨y, -, rfl⟩ := Option.map_eq_some_iff.1 hx
    exact Nat.zero_add k
  rw [← map_zipIdx_entries]
  simp only [← List.map_take, List.forall_mem_map]
  refine mapM_eq_error_iff.trans ⟨?_, ?_⟩
  · rintro ⟨k, ⟨⟨f, e⟩, i⟩, hk, herr, hbefore⟩
    obtain rfl : i = k := hposition hk
    refine ⟨i, f, by rw [List.getElem?_map, hk]; rfl, ?_, ?_⟩
    · rintro ⟨⟨g, e'⟩, j⟩ hmem
      obtain ⟨face, hface⟩ := hbefore _ hmem
      obtain ⟨loop, hcloses, -⟩ :=
        (assembleFace_eq_ok_iff (entry?_of_mem_zipIdx (List.mem_of_mem_take hmem))).1 hface
      exact ⟨loop, hcloses⟩
    · exact (assembleFace_eq_error_iff (entry?_of_mem_zipIdx (List.mem_of_getElem? hk))).1 herr
  · rintro ⟨k, f, hk, hbefore, hfails⟩
    rw [List.getElem?_map] at hk
    obtain ⟨⟨⟨f, e⟩, i⟩, hx, rfl⟩ := Option.map_eq_some_iff.1 hk
    obtain rfl : i = k := hposition hx
    refine ⟨i, _, hx, ?_, ?_⟩
    · exact (assembleFace_eq_error_iff (entry?_of_mem_zipIdx (List.mem_of_getElem? hx))).2 hfails
    · rintro ⟨⟨g, e'⟩, j⟩ hmem
      obtain ⟨loop, hcloses⟩ := hbefore _ hmem
      exact ⟨_, (assembleFace_eq_ok_iff (entry?_of_mem_zipIdx (List.mem_of_mem_take hmem))).2
        ⟨loop, hcloses, rfl⟩⟩

/-! ## The outcome -/

omit [BEq F] [Hashable F] [LawfulBEq F] in
theorem labels_eq_eraseDups (b : Blueprint V F) : b.labels = (b.vertices.map Prod.fst).eraseDups :=
  map_fst_firstByLabel_empty b.vertices

omit [BEq V] [Hashable V] [LawfulBEq V] in
theorem faceLabels_eq_eraseDups (b : Blueprint V F) :
    b.faceLabels = (b.flags.map Flag.face).eraseDups := by
  rw [faceLabels, entries, map_fst_firstByLabel_empty, List.map_map]
  rfl

omit [BEq F] [Hashable F] [LawfulBEq F] in
/-- Each vertex has the position with which its label was first declared. -/
theorem map_some_positions (b : Blueprint V F) :
    b.positions.toList.map some = b.labels.map (b.vertices.lookup ·) := by
  rw [positions, labels, List.map_map, List.map_map]
  refine List.map_congr_left fun x hx => ?_
  exact (lookup_of_mem_firstByLabel hx).symm

omit [LawfulBEq V] [LawfulBEq F] [Hashable F] in
/-- An orbit that closes meets no vertex twice. -/
theorem Closes.nodup {loop : List V} (h : b.Closes f loop) : loop.Nodup := by
  obtain ⟨v, hends, -⟩ := h.exists_ends
  refine List.nodup_iff_getElem?_ne_getElem?.2 fun i j hij hj => ?_
  rw [← h.along i (by omega), ← h.along j hj]
  exact hends.orbit_injective hij (by omega)

omit [LawfulBEq F] [Hashable F] in
theorem Closes.nodup_map_indexOf {loop : List V} (h : b.Closes f loop) :
    (loop.map b.indexOf).Nodup :=
  h.nodup.map_on fun x hx _ _ heq => indexOf_inj (h.declared x hx) heq

end Lawful

/--
The mesh has the declared vertices, each with its first position, and for its faces the
orbits, all of which close.
-/
structure Traced [Hashable F] (b : Blueprint V F) (name : Text) (m : Mesh) : Prop where
  name : m.name = name
  positions : m.vertices.toList.map some = b.labels.map (b.vertices.lookup ·)
  faces : List.Forall₂ (fun f face => face.Nodup ∧ ∃ loop, b.Closes f loop ∧
    face = loop.map b.indexOf) b.faceLabels m.faces

/-- The first face whose orbit does not close fails for the given reason. -/
def FailsFirst [Hashable F] (b : Blueprint V F) (err : MeshError) : Prop :=
  ∃ k f, b.faceLabels[k]? = some f ∧ (∀ g ∈ b.faceLabels.take k, ∃ loop, b.Closes g loop) ∧
    b.Fails f k err

section Outcome

variable [LawfulBEq V] [Hashable F] [LawfulBEq F]

theorem assemble_eq_ok_iff {name : Text} {m : Mesh} :
    b.assemble name = .ok m ↔ b.sizeFault? = none ∧ b.Traced name m := by
  constructor
  · intro h
    obtain ⟨fs, hfs, rfl⟩ := Except.map_eq_ok.1 h
    obtain ⟨hsize, hfs⟩ := faces_eq_ok_iff_assembleFaces.1 hfs
    refine ⟨hsize, rfl, b.map_some_positions, (assembleFaces_eq_ok_iff.1 hfs).imp ?_⟩
    rintro f face ⟨loop, hcloses, rfl⟩
    exact ⟨hcloses.nodup_map_indexOf, loop, hcloses, rfl⟩
  · rintro ⟨hsize, h⟩
    have hpositions : m.vertices = b.positions := by
      refine Array.ext' ((List.map_inj_right fun x y hxy => Option.some.inj hxy).1 ?_)
      rw [h.positions, map_some_positions]
    have hfaces : b.faces = .ok m.faces := by
      rw [faces_eq_assembleFaces hsize, assembleFaces_eq_ok_iff]
      exact h.faces.imp fun f face hf => hf.2
    refine Except.map_eq_ok.2 ⟨m.faces, hfaces, ?_⟩
    rw [← h.name, ← hpositions]

theorem assemble_eq_error_iff {name : Text} {err : MeshError} :
    b.assemble name = .error err ↔
      b.sizeFault? = some err ∨ b.sizeFault? = none ∧ b.FailsFirst err := by
  rw [assemble, Except.map_eq_error, faces_eq_error_iff_assembleFaces, assembleFaces_eq_error_iff]
  rfl

/--
What a blueprint is assembled to.  Vertices and faces are numbered in the order in which
their labels first appear.  A blueprint with too many of either is refused.  Of any other
one the mesh is traced by the orbits if all of them close, and otherwise the first face
that fails is reported, with what its orbit meets before it has made use of all flags that
count.  An orbit that has made use of all of them and breaks off is reported as one that
goes on for ever; the first flag of such a face was replaced.
-/
theorem assemble_follows_orbits (b : Blueprint V F) (name : Text) :
    b.labels = (b.vertices.map Prod.fst).eraseDups ∧
    b.faceLabels = (b.flags.map Flag.face).eraseDups ∧
    b.sizeFault? = oversize? b.labels.length b.faceLabels.length ∧
    (∀ m, b.assemble name = .ok m ↔ b.sizeFault? = none ∧ b.Traced name m) ∧
    (∀ err, b.assemble name = .error err ↔
      b.sizeFault? = some err ∨ b.sizeFault? = none ∧ b.FailsFirst err) ∧
    ∀ f v, b.Arrives f (b.sources f).length v → (v ∈ b.labels → b.successor? f v = none) →
      b.FirstReplaced f :=
  ⟨b.labels_eq_eraseDups, b.faceLabels_eq_eraseDups, b.sizeFault?_eq, fun _ => assemble_eq_ok_iff,
    fun _ => assemble_eq_error_iff, fun _ _ => firstReplaced_of_arrives⟩

end Outcome

/-! ## Two orbits that do not close -/

/-- Four vertices, and flags that lead from 11 into the loop of 12 and 13. -/
def astray : Blueprint Nat Nat where
  vertices := [(10, .zero), (11, .zero), (12, .zero), (13, .zero)]
  flags := [⟨0, 10, 11⟩, ⟨0, 11, 12⟩, ⟨0, 12, 13⟩, ⟨0, 13, 12⟩]

/-- The orbit of the face goes round in the loop, and the face is left open. -/
theorem assemble_astray : astray.assemble [] = .error (.openFace 0 4) := by
  obtain ⟨hlabels, hfaceLabels, hsize, -, herror, -⟩ := assemble_follows_orbits astray []
  have hstep : ∀ v ∈ [11, 12, 13], v ∈ (astray.vertices.map Prod.fst).eraseDups ∧
      ∃ w ∈ [12, 13], astray.successor? 0 v = some w := by decide
  have hendless : ∀ n, ∃ v ∈ [11, 12, 13], astray.Arrives 0 n v := by
    intro n
    induction n with
    | zero => exact ⟨11, by decide, arrives_zero_iff.2 rfl⟩
    | succ n ih =>
      obtain ⟨v, hv, harrives⟩ := ih
      obtain ⟨hdeclared, w, hw, hnext⟩ := hstep v hv
      refine ⟨w, List.mem_cons_of_mem _ hw, harrives.step (hlabels ▸ hdeclared) hnext ?_⟩
      have haway : ∀ w ∈ [12, 13], some w ≠ astray.entry? 0 := by decide
      rw [hnext]
      exact haway w hw
  rw [hlabels, hfaceLabels] at hsize
  refine (herror _).2 (.inr ⟨hsize, 0, 0, by rw [hfaceLabels]; rfl, by simp, ?_⟩)
  exact .endless fun n => (hendless n).imp fun v h => h.2

/-- The last flag replaces the first one, and leads from 0 to 2 where no flag goes on. -/
def replaced : Blueprint Nat Nat where
  vertices := [(0, .zero), (1, .zero), (2, .zero)]
  flags := [⟨0, 0, 1⟩, ⟨0, 1, 0⟩, ⟨0, 0, 2⟩]

/-- The orbit breaks off and is reported as one that goes on for ever. -/
theorem assemble_replaced :
    replaced.assemble [] = .error (.openFace 0 2) ∧
    (∃ n v, replaced.Arrives 0 n v ∧ v ∈ replaced.labels ∧ replaced.successor? 0 v = none) ∧
    ¬ ∀ n, ∃ v, replaced.Arrives 0 n v := by
  have hlabels : ∀ v ∈ [0, 1, 2], v ∈ replaced.labels := by
    rw [labels_eq_eraseDups]
    decide
  have hone : replaced.Arrives 0 0 1 := arrives_zero_iff.2 rfl
  have hzero : replaced.Arrives 0 1 0 := hone.step (hlabels 1 (by decide)) rfl (by decide)
  have htwo : replaced.Arrives 0 2 2 := hzero.step (hlabels 0 (by decide)) rfl (by decide)
  have hends : replaced.Ends 0 2 2 := ⟨htwo, fun _ => .inl rfl⟩
  have hsize : replaced.sizeFault? = none := by
    rw [sizeFault?_eq, labels_eq_eraseDups, faceLabels_eq_eraseDups]
    rfl
  refine ⟨assemble_eq_error_iff.2 (.inr ⟨hsize, 0, 0, ?_, by simp, .exhausted htwo fun _ => rfl⟩),
    ⟨2, 2, htwo, hlabels 2 (by decide), rfl⟩, fun hendless => ?_⟩
  · rw [faceLabels_eq_eraseDups]
    rfl
  · obtain ⟨v, hv⟩ := hendless 3
    exact hends.not_arrives (by decide) hv

end Blueprint

end Polyhedra
