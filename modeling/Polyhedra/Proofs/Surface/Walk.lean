import Polyhedra.Proofs.Surface.Assembly
import Mathlib.Data.List.Chain

/-!
# Walks along flags

Assembly follows the flags of a face from its entry on until the entry comes up
again.  Nothing is assumed of the flags in this module: a face may have flags
that lead nowhere, or into a loop that misses the entry.  A walk that does come
back has met every vertex once, since from any vertex on there is one way to go;
and a walk that does not come back breaks off or runs out of steps.

## Main results

* `eq_of_isChain_returns` — there is one walk from a vertex to the first return.
* `nodup_of_isChain_returns` — a walk that comes back meets no vertex twice.
* `eq_of_cycleEdges` — a cycle is told by its first entry and its edges.
* `Blueprint.exists_loops` — every assembled face is a loop along its flags.
* `Blueprint.exists_assembleFaces_iff` — faces with rings are assembled if all their vertices
  are declared, and not otherwise.
* `Blueprint.assembleFaces_eq_error` — how assembly fails if all vertices are declared.
-/

namespace Polyhedra

/-! ## Walks that come back -/

section Returns

variable {V : Type} {R : V → V → Prop} {v e : V} {s t : List V}

/-- There is one walk from a vertex to the first return, if there is one way to go. -/
theorem eq_of_isChain_returns (hR : ∀ x y z, R x y → R x z → y = z)
    (hs : (v :: (s ++ [e])).IsChain R) (ht : (v :: (t ++ [e])).IsChain R) (hes : e ∉ s)
    (het : e ∉ t) : s = t := by
  induction s generalizing v t with
  | nil =>
    cases t with
    | nil => rfl
    | cons y t =>
      have hve : R v e := (List.isChain_cons_cons.1 hs).1
      have hvy : R v y := (List.isChain_cons_cons.1 ht).1
      exact absurd (hR v e y hve hvy) fun heq => het (by simp [heq])
  | cons x s ih =>
    obtain ⟨hvx, hs⟩ := List.isChain_cons_cons.1 hs
    cases t with
    | nil =>
      have hve : R v e := (List.isChain_cons_cons.1 ht).1
      exact absurd (hR v e x hve hvx) fun heq => hes (by simp [heq])
    | cons y t =>
      obtain ⟨hvy, ht⟩ := List.isChain_cons_cons.1 ht
      have hxy : x = y := hR v x y hvx hvy
      subst hxy
      rw [ih hs ht (fun hmem => hes (List.mem_cons_of_mem _ hmem))
        fun hmem => het (List.mem_cons_of_mem _ hmem)]

/-- A walk up to the first return meets no vertex twice. -/
theorem nodup_of_isChain_returns (hR : ∀ x y z, R x y → R x z → y = z)
    (hs : (v :: (s ++ [e])).IsChain R) (hes : e ∉ s) : (v :: s).Nodup := by
  induction s generalizing v with
  | nil => simp
  | cons x s ih =>
    have hrest := (List.isChain_cons_cons.1 hs).2
    have hdistinct := ih hrest fun hmem => hes (List.mem_cons_of_mem _ hmem)
    refine List.nodup_cons.2 ⟨fun hmem => ?_, hdistinct⟩
    -- from its second occurrence on, `v` would return earlier than it does
    obtain ⟨a, t, heq⟩ := List.append_of_mem hmem
    have hchain : (v :: (t ++ [e])).IsChain R := by
      have hall : (a ++ v :: (t ++ [e])).IsChain R := by
        have hsplit : a ++ v :: (t ++ [e]) = x :: (s ++ [e]) := by
          rw [← List.cons_append, ← List.cons_append, heq, List.append_assoc, List.cons_append]
        rw [hsplit]
        exact hrest
      exact hall.right_of_append
    have het : e ∉ t := fun hmem => hes (by rw [heq]; simp [hmem])
    have hlength := congrArg List.length heq
    rw [eq_of_isChain_returns hR hs hchain hes het] at hlength
    simp at hlength
    omega

/-- The edges of a cycle, written down as a walk from its first entry back to it. -/
theorem isChain_concat_iff_cycleEdges :
    (v :: (s ++ [v])).IsChain R ↔ ∀ x y, (x, y) ∈ cycleEdges (v :: s) → R x y := by
  constructor
  · intro hchain x y hxy
    rw [← List.cons_append] at hchain
    rcases mem_cycleEdges_cases hxy with ⟨a, b, heq⟩ | ⟨hlast, hhead⟩
    · rw [heq, List.append_assoc, List.cons_append, List.cons_append] at hchain
      exact (List.isChain_append_cons_cons.1 hchain).2.1
    · have hy : v = y := by simpa using hhead
      subst hy
      rw [← List.dropLast_append_getLast? x hlast, List.append_assoc] at hchain
      exact (List.isChain_append_cons_cons.1 hchain).2.1
  · intro hR
    obtain ⟨hchain, hlast⟩ := isChain_of_cycleEdges hR
    rw [← List.cons_append]
    refine hchain.append (List.isChain_singleton v) fun x hx y hy => ?_
    rw [List.getLast?_eq_some_getLast (List.cons_ne_nil v s), Option.mem_some_iff] at hx
    rw [List.head?_cons, Option.mem_some_iff] at hy
    rw [← hx, ← hy]
    exact hlast

end Returns

/-- A cycle without repetitions is told by its first entry and its edges. -/
theorem eq_of_cycleEdges {α : Type} {l l' : List α} {a : α} (hl : l.Nodup) (hl' : l'.Nodup)
    (ha : l.head? = some a) (ha' : l'.head? = some a)
    (hedges : ∀ x y, (x, y) ∈ cycleEdges l' → (x, y) ∈ cycleEdges l) : l' = l := by
  obtain ⟨s, rfl⟩ := List.head?_eq_some_iff.1 ha
  obtain ⟨t, rfl⟩ := List.head?_eq_some_iff.1 ha'
  have hunique : ∀ x y z, (x, y) ∈ cycleEdges (a :: s) → (x, z) ∈ cycleEdges (a :: s) → y = z :=
    fun _ _ _ => cycleEdges_right_unique hl
  have hchain : (a :: (s ++ [a])).IsChain fun x y => (x, y) ∈ cycleEdges (a :: s) :=
    isChain_concat_iff_cycleEdges.2 fun _ _ hxy => hxy
  have hchain' : (a :: (t ++ [a])).IsChain fun x y => (x, y) ∈ cycleEdges (a :: s) :=
    isChain_concat_iff_cycleEdges.2 hedges
  rw [eq_of_isChain_returns hunique hchain' hchain (List.nodup_cons.1 hl').1
    (List.nodup_cons.1 hl).1]

/-- A cycle without repetitions is told by one entry and its edges, but for where it begins. -/
theorem isRotated_of_cycleEdges {α : Type} {l l' : List α} {a : α} (hl : l.Nodup) (hl' : l'.Nodup)
    (ha : a ∈ l) (ha' : a ∈ l')
    (hedges : ∀ x y, (x, y) ∈ cycleEdges l' → (x, y) ∈ cycleEdges l) : l.IsRotated l' := by
  obtain ⟨s, t, rfl⟩ := List.append_of_mem ha
  obtain ⟨s', t', rfl⟩ := List.append_of_mem ha'
  have hfrom : (s ++ a :: t).IsRotated (a :: t ++ s) := List.isRotated_append
  have hfrom' : (s' ++ a :: t').IsRotated (a :: t' ++ s') := List.isRotated_append
  have hsame : a :: t' ++ s' = a :: t ++ s := by
    refine eq_of_cycleEdges (hfrom.nodup_iff.1 hl) (hfrom'.nodup_iff.1 hl') rfl rfl ?_
    exact fun x y hxy =>
      mem_cycleEdges_append_comm.1 (hedges x y (mem_cycleEdges_append_comm.1 hxy))
  exact hfrom.trans (hsame ▸ hfrom'.symm)

/-! ## Following flags -/

/-- A cycle of different vertices along which flags of the face lead, from its entry on. -/
structure Net.Loop {V F : Type} (N : Net V F) (f : F) (entry : V) (loop : List V) : Prop where
  head : loop.head? = some entry
  nodup : loop.Nodup
  isVertex : ∀ v ∈ loop, N.IsVertex v
  runs : ∀ v w, (v, w) ∈ cycleEdges loop → N.Runs f v w

namespace Blueprint

variable {V F : Type} [BEq V] [Hashable V] [LawfulBEq V]

section Follow

variable {numbering : Std.HashMap V Nat} {table : Std.HashMap V V} {face steps fuel : Nat}
  {entry v : V}

/-- What is followed with success is a walk up to the first return to the entry. -/
theorem exists_walk_of_follow {l : Face}
    (h : follow numbering table face steps entry fuel v = .ok l) :
    ∃ rest, (v :: (rest ++ [entry])).IsChain (fun x y => table[x]? = some y) ∧ entry ∉ rest ∧
      List.Forall₂ (fun x i => numbering[x]? = some i) (v :: rest) l := by
  fun_induction follow numbering table face steps entry fuel v generalizing l with
  | case1 => simp at h
  | case2 => simp at h
  | case3 fuel v i hi w hw heq =>
    have hback : w = entry := eq_of_beq heq
    obtain rfl := Except.ok.inj h
    exact ⟨[], by simpa [← hback] using hw, by simp, .cons hi .nil⟩
  | case4 => simp at h
  | case5 v i hi w hw hne fuel ih =>
    obtain ⟨l, hl, rfl⟩ := Except.map_eq_ok.1 h
    obtain ⟨rest, hchain, hentry, hall⟩ := ih hl
    refine ⟨w :: rest, .cons_cons hw hchain, ?_, .cons hi hall⟩
    intro hmem
    rcases List.mem_cons.1 hmem with heq | hmem
    · exact hne (by simp [heq])
    · exact hentry hmem

/--
What a walk has met when it stands at `v`: in front of `v` the vertices `past`, all
of them different, and each but the entry reached from one that came before.
-/
structure Walked (table : Std.HashMap V V) (entry v : V) (past : List V) : Prop where
  mem : ∀ x ∈ v :: past, x ∈ table
  nodup : (v :: past).Nodup
  reached : ∀ y ∈ v :: past, y ≠ entry → ∃ x ∈ past, table[x]? = some y

namespace Walked

variable {past : List V} {w : V} (h : Walked table entry v past)
include h

/-- A walk has met no more vertices than there are. -/
theorem length_le : past.length + 1 ≤ table.size := by
  rw [← Std.HashMap.length_keys]
  exact (List.subperm_of_subset h.nodup fun x hx => Std.HashMap.mem_keys.2 (h.mem x hx)).length_le

omit [LawfulBEq V] in
/-- Short of the entry the next vertex is a new one, if no vertex is come to from two others. -/
theorem step (hleft : ∀ x y z : V, table[x]? = some z → table[y]? = some z → x = y)
    (hvw : table[v]? = some w) (hw : w ∈ table) (hback : w ≠ entry) :
    Walked table entry w (v :: past) where
  mem := List.forall_mem_cons.2 ⟨hw, h.mem⟩
  nodup := by
    refine List.nodup_cons.2 ⟨fun hmet => ?_, h.nodup⟩
    obtain ⟨x, hx, hxw⟩ := h.reached w hmet hback
    have hxv : x = v := hleft x v w hxw hvw
    exact (List.nodup_cons.1 h.nodup).1 (hxv ▸ hx)
  reached := by
    refine List.forall_mem_cons.2 ⟨fun _ => ⟨v, by simp, hvw⟩, fun y hy hne => ?_⟩
    obtain ⟨x, hx, hxy⟩ := h.reached y hy hne
    exact ⟨x, List.mem_cons_of_mem v hx, hxy⟩

end Walked

/--
A walk among declared vertices comes back to its entry if it can always go on and
never comes to a vertex from two others: it meets only new vertices until then, of
which there are no more than steps.
-/
theorem exists_follow_eq_ok {past : List V}
    (hnumbered : ∀ x ∈ table, numbering[x]?.isSome = true)
    (hclosed : ∀ x y : V, table[x]? = some y → y ∈ table)
    (hleft : ∀ x y z : V, table[x]? = some z → table[y]? = some z → x = y)
    (hwalked : Walked table entry v past) (hfuel : table.size ≤ past.length + 1 + fuel) :
    ∃ l, follow numbering table face steps entry fuel v = .ok l := by
  have hv : v ∈ table := hwalked.mem v (by simp)
  fun_induction follow numbering table face steps entry fuel v generalizing past with
  | case1 fuel v hnone => simpa [hnone] using hnumbered v hv
  | case2 fuel v i hi hnone =>
    rw [Std.HashMap.mem_iff_isSome_getElem?, hnone] at hv
    simp at hv
  | case3 fuel v i => exact ⟨[i], rfl⟩
  | case4 v i hi w hvw hne =>
    -- no step is left, but the next vertex would be one more than there are
    have hroom := (hwalked.step hleft hvw (hclosed v w hvw) (by simpa using hne)).length_le
    rw [List.length_cons] at hroom
    omega
  | case5 v i hi w hvw hne fuel ih =>
    have hw := hclosed v w hvw
    have hwalked' := hwalked.step hleft hvw hw (by simpa using hne)
    obtain ⟨l, hl⟩ := ih hwalked' (by rw [List.length_cons]; omega) hw
    exact ⟨i :: l, by rw [hl]; rfl⟩

omit [LawfulBEq V] in
/-- If every vertex met is declared, following fails by breaking off or by running out of steps. -/
theorem follow_eq_error {err : MeshError} (hv : numbering[v]?.isSome = true)
    (hnext : ∀ x y : V, table[x]? = some y → numbering[y]?.isSome = true)
    (h : follow numbering table face steps entry fuel v = .error err) :
    err = .missingFlag face ∨ err = .openFace face steps := by
  fun_induction follow numbering table face steps entry fuel v with
  | case1 fuel v hnone => simp [hnone] at hv
  | case2 =>
    obtain rfl := Except.error.inj h
    exact .inl rfl
  | case3 => simp at h
  | case4 =>
    obtain rfl := Except.error.inj h
    exact .inr rfl
  | case5 v i hi w hw hne fuel ih => exact ih (hnext v w hw) (Except.map_eq_error.1 h)

end Follow

section Faces

variable [BEq F] [Hashable F] [LawfulBEq F] {b : Blueprint V F}

omit [LawfulBEq F] [Hashable F] [BEq F] in
/-- Vertices with their numbers are declared, and numbered as they are declared. -/
theorem eq_map_indexOf {l : List V} {face : Face}
    (h : List.Forall₂ (fun x i => b.numbering[x]? = some i) l face) :
    face = l.map b.indexOf ∧ ∀ v ∈ l, v ∈ b.labels := by
  constructor
  · have heq : List.Forall₂ (· = ·) (l.map b.indexOf) face :=
      List.forall₂_map_left_iff.2 (h.imp fun x i hi => (eq_indexOf_of_numbering hi).symm)
    rw [List.forall₂_eq_eq_eq] at heq
    exact heq.symm
  · intro v hv
    obtain ⟨i, -, hi⟩ := exists_zip_of_forall₂ h hv
    exact List.mem_of_getElem? ((getElem?_numbering b v i).1 hi)

/-- A face that is assembled is a loop along its flags. -/
theorem exists_loop_of_assembleFace {f : F} {entry : V} {k : Nat} {face : Face}
    (h : assembleFace b.numbering (b.successors.getD f ∅) k entry = .ok face) :
    ∃ loop, b.net.Loop f entry loop ∧ face = loop.map b.indexOf := by
  obtain ⟨rest, hchain, hentry, hall⟩ := exists_walk_of_follow h
  obtain ⟨hface, hdeclared⟩ := eq_map_indexOf hall
  refine ⟨entry :: rest, ⟨rfl, ?_, hdeclared, fun v w hvw => ?_⟩, hface⟩
  · refine nodup_of_isChain_returns (fun x y z hy hz => ?_) hchain hentry
    exact Option.some.inj (hy.symm.trans hz)
  · exact runs_of_successors (isChain_concat_iff_cycleEdges.1 hchain v w hvw)

/-- Every assembled face is a loop along its flags. -/
theorem exists_loops {fs : List Face} (h : b.assembleFaces = .ok fs) :
    List.Forall₂ (fun entry face => ∃ loop, b.net.Loop entry.1 entry.2 loop ∧
      face = loop.map b.indexOf) b.entries fs := by
  rw [← List.zipIdx_map_fst 0 b.entries]
  refine List.forall₂_map_left_iff.2 ?_
  exact (mapM_eq_ok_iff.1 h).imp fun _ _ => exists_loop_of_assembleFace

/-- Flags leave the vertices of a circulating face that are in its table. -/
theorem mem_successors_iff {f : F} {v : V} (h : b.net.Circulates f) :
    v ∈ b.successors.getD f ∅ ↔ ∃ w, b.net.Runs f v w := by
  rw [Std.HashMap.mem_iff_isSome_getElem?, Option.isSome_iff_exists]
  exact exists_congr fun w => successors_eq h

/-- A face that circulates among declared vertices is assembled. -/
theorem exists_assembleFace {f : F} {v entry : V} (h : b.net.Circulates f)
    (hdeclared : ∀ v w, b.net.Runs f v w → v ∈ b.labels) (hr : b.net.Runs f v entry) (k : Nat) :
    ∃ face, assembleFace b.numbering (b.successors.getD f ∅) k entry = .ok face := by
  have hentry : entry ∈ b.successors.getD f ∅ :=
    (mem_successors_iff h).2 (h.exists_next v entry hr)
  have hwalked : Walked (b.successors.getD f ∅) entry entry [] :=
    ⟨by simpa using hentry, by simp, by simp⟩
  refine exists_follow_eq_ok (fun x hx => ?_) (fun x y hxy => ?_) (fun x y z hx hy => ?_) hwalked
    (by simp; omega)
  · obtain ⟨y, hy⟩ := (mem_successors_iff h).1 hx
    rw [numbering_eq (hdeclared x y hy)]
    rfl
  · exact (mem_successors_iff h).2 (h.exists_next x y (runs_of_successors hxy))
  · exact h.left_unique x y z (runs_of_successors hx) (runs_of_successors hy)

/-- Faces that circulate among declared vertices are assembled. -/
theorem exists_assembleFaces_of_circulates (h : ∀ f v w, b.net.Runs f v w → b.net.Circulates f)
    (hdeclared : ∀ f v w, b.net.Runs f v w → v ∈ b.labels) :
    ∃ fs, b.assembleFaces = .ok fs := by
  obtain ⟨fs, hfs, -⟩ := exists_mapM_eq_ok (l := b.entries.zipIdx)
    (f := fun x => assembleFace b.numbering (b.successors.getD x.1.1 ∅) x.2 x.1.2)
    (P := fun _ _ => True) (by
      rintro ⟨⟨f, entry⟩, k⟩ hmem
      have hentry := List.mem_of_getElem? (List.mem_zipIdx_iff_getElem?.1 hmem)
      obtain ⟨v, hr⟩ := runs_of_mem_entries hentry
      obtain ⟨face, hface⟩ := exists_assembleFace (h f v entry hr) (hdeclared f) hr k
      exact ⟨face, hface, trivial⟩)
  exact ⟨fs, hfs⟩

/-- Assembly goes once round the ring of a face, and finds all its vertices declared. -/
theorem mem_labels_of_ring {fs : List Face} (hfs : b.assembleFaces = .ok fs) {f : F} {ring : List V}
    (hring : b.net.Ring f ring) {v : V} (hv : v ∈ ring) : v ∈ b.labels := by
  obtain ⟨w, hr⟩ := hring.touches_iff.2 hv
  obtain ⟨⟨f, entry⟩, hentry, rfl⟩ := List.mem_map.1 (mem_faceLabels.2 ⟨v, w, hr⟩)
  obtain ⟨_, -, loop, hloop, -⟩ := exists_zip_of_forall₂ (exists_loops hfs) hentry
  obtain ⟨u, hu⟩ := runs_of_mem_entries hentry
  have hmem : entry ∈ ring := mem_right_of_mem_cycleEdges ((hring.runs_iff u entry).1 hu)
  -- from the entry on there is one way round, which is that of the ring
  obtain ⟨rest, hrest⟩ := hring.exists_from hmem
  obtain rfl : loop = entry :: rest :=
    eq_of_cycleEdges hrest.nodup hloop.nodup rfl hloop.head fun x y hxy =>
      (hrest.runs_iff x y).1 (hloop.runs x y hxy)
  exact hloop.isVertex v (hrest.touches_iff.1 ⟨w, hr⟩)

/-- Faces with rings are assembled if all their vertices are declared, and not otherwise. -/
theorem exists_assembleFaces_iff (h : b.net.Ringed) :
    (∃ fs, b.assembleFaces = .ok fs) ↔ ∀ f v w, b.net.Runs f v w → v ∈ b.labels := by
  constructor
  · rintro ⟨fs, hfs⟩ f v w hr
    obtain ⟨ring, hring⟩ := h f v w hr
    exact mem_labels_of_ring hfs hring (hring.touches_iff.1 ⟨w, hr⟩)
  · refine exists_assembleFaces_of_circulates fun f v w hr => ?_
    obtain ⟨ring, hring⟩ := h f v w hr
    exact hring.circulates

/-- If all vertices are declared then assembly fails where a face breaks off or stays open. -/
theorem assembleFaces_eq_error {err : MeshError}
    (hdeclared : ∀ f v w, b.net.Runs f v w → w ∈ b.labels) (h : b.assembleFaces = .error err) :
    (∃ k, err = .missingFlag k) ∨ ∃ k steps, err = .openFace k steps := by
  obtain ⟨⟨⟨f, entry⟩, k⟩, hmem, hface⟩ := exists_of_mapM_eq_error h
  have declared : ∀ {f v w}, b.net.Runs f v w → b.numbering[w]?.isSome = true := by
    intro f v w hr
    rw [numbering_eq (hdeclared f v w hr)]
    rfl
  have hentry := List.mem_of_getElem? (List.mem_zipIdx_iff_getElem?.1 hmem)
  obtain ⟨v, hr⟩ := runs_of_mem_entries hentry
  rcases follow_eq_error (declared hr) (fun x y hy => declared (runs_of_successors hy)) hface with
    rfl | rfl
  · exact .inl ⟨k, rfl⟩
  · exact .inr ⟨k, _, rfl⟩

end Faces

end Blueprint

end Polyhedra
