import Polyhedra.Proofs.Surface.Orbits

/-!
# Leftovers

Assembly follows one orbit of each face, and what lies elsewhere is left out without an
error: another cycle of flags, or flags that lead into the orbit from outside.  If no flag
replaces another one then the flags on the orbit are all kept, as the edges of the face in
the mesh, and no others are.  So none is left out just when the flags of the face form one
directed cycle.
-/

namespace Polyhedra.Blueprint

variable {V F : Type}

/-- No two flags of one face leave the same vertex. -/
def Unreplaced (b : Blueprint V F) : Prop :=
  (b.flags.map fun flag => (flag.face, flag.source)).Nodup

variable [BEq V] [Hashable V] {b : Blueprint V F} {f : F} {k : Nat} {v w : V} {loop : List V}

/-- The flags of the face form one directed cycle. -/
def OneCycle (b : Blueprint V F) (f : F) : Prop :=
  ∃ cycle : List V, cycle.Nodup ∧ ∀ v w, b.net.Runs f v w ↔ (v, w) ∈ cycleEdges cycle

theorem Unreplaced.right_unique {x : V} (h : b.Unreplaced) (hw : b.net.Runs f v w)
    (hx : b.net.Runs f v x) : w = x :=
  congrArg Flag.target (List.inj_on_of_nodup_map h hw hx rfl)

variable [BEq F] [LawfulBEq V] [LawfulBEq F]

/-! ## Orbits and their edges -/

/-- If no flag replaces another one then every flag counts. -/
theorem Unreplaced.successor?_eq_some_iff (h : b.Unreplaced) :
    b.successor? f v = some w ↔ b.net.Runs f v w := by
  refine ⟨runs_of_successor?, fun hr => ?_⟩
  obtain ⟨x, hx⟩ := exists_successor?_iff.2 (mem_sources.2 ⟨w, hr⟩)
  rwa [h.right_unique hr (runs_of_successor? hx)]

namespace Closes

variable (h : b.Closes f loop)
include h

omit [LawfulBEq V] [LawfulBEq F] in
/-- The vertex behind a vertex of the orbit, in the order of the cycle. -/
theorem orbit_succ (hk : k < loop.length) : b.orbit f (k + 1) = loop[next loop.length k]? := by
  unfold next
  split
  · next hlast =>
    rw [hlast, h.back, ← h.along 0 (by omega)]
    rfl
  · exact h.along _ (by omega)

omit [LawfulBEq V] [LawfulBEq F] in
/-- The edges of an orbit that closes are the flags that count and leave its vertices. -/
theorem mem_cycleEdges_iff : (v, w) ∈ cycleEdges loop ↔ v ∈ loop ∧ b.successor? f v = some w := by
  rw [Polyhedra.mem_cycleEdges_iff]
  constructor
  · rintro ⟨k, hk, hv, hw⟩
    refine ⟨List.mem_of_getElem? hv, ?_⟩
    rw [h.successor?_eq_orbit hv, h.orbit_succ hk, hw]
  · rintro ⟨hv, hw⟩
    obtain ⟨k, hk⟩ := List.mem_iff_getElem?.1 hv
    have hlt := (List.getElem?_eq_some_iff.1 hk).1
    refine ⟨k, hlt, hk, ?_⟩
    rw [← h.orbit_succ hlt, ← h.successor?_eq_orbit hk, hw]

omit [LawfulBEq V] [LawfulBEq F] in
/-- An orbit that closes never leaves its cycle. -/
theorem mem_loop_iff : v ∈ loop ↔ ∃ n, b.orbit f n = some v := by
  constructor
  · intro hv
    obtain ⟨k, hk⟩ := List.mem_iff_getElem?.1 hv
    exact ⟨k, (h.along k (List.getElem?_eq_some_iff.1 hk).1).trans hk⟩
  · rintro ⟨n, hn⟩
    induction n generalizing v with
    | zero =>
      rw [h.along 0 (List.length_pos_iff.2 h.ne_nil)] at hn
      exact List.mem_of_getElem? hn
    | succ n ih =>
      obtain ⟨u, hu, hnext⟩ := Option.bind_eq_some_iff.1 hn
      exact mem_right_of_mem_cycleEdges (h.mem_cycleEdges_iff.2 ⟨ih hu, hnext⟩)

omit [LawfulBEq F] in
/-- The edges of the assembled face are the edges of the orbit. -/
theorem mem_edges_iff :
    (b.indexOf v, b.indexOf w) ∈ Face.edges (loop.map b.indexOf) ↔ (v, w) ∈ cycleEdges loop := by
  rw [Face.edges, mem_cycleEdges_map]
  constructor
  · rintro ⟨x, y, hxy, hx, hy⟩
    rw [← indexOf_inj (h.declared x (mem_left_of_mem_cycleEdges hxy)) hx,
      ← indexOf_inj (h.declared y (mem_right_of_mem_cycleEdges hxy)) hy]
    exact hxy
  · exact fun hvw => ⟨v, w, hvw, rfl, rfl⟩

/-- If the flags of the face form one directed cycle then the orbit goes round it. -/
theorem mem_cycleEdges_of_oneCycle (hunique : b.Unreplaced) (hcycle : b.OneCycle f)
    (hr : b.net.Runs f v w) : (v, w) ∈ cycleEdges loop := by
  obtain ⟨cycle, hnodup, hruns⟩ := hcycle
  have hedges : ∀ x y, (x, y) ∈ cycleEdges loop → (x, y) ∈ cycleEdges cycle := fun x y hxy =>
    (hruns x y).1 (hunique.successor?_eq_some_iff.1 (h.mem_cycleEdges_iff.1 hxy).2)
  obtain ⟨e, rest, rfl⟩ := List.exists_cons_of_ne_nil h.ne_nil
  have he : e ∈ e :: rest := List.mem_cons_self
  obtain ⟨x, hx⟩ := exists_mem_cycleEdges_left he
  -- the cycle is the orbit, once it is written down from the entry on
  have hsame : cycle.IsRotated (e :: rest) :=
    isRotated_of_cycleEdges hnodup h.nodup (mem_left_of_mem_cycleEdges (hedges e x hx)) he hedges
  exact (mem_cycleEdges_of_isRotated hsame).1 ((hruns v w).1 hr)

/-- The edges of the orbit are all flags of the face just when these form one directed cycle. -/
theorem forall_mem_cycleEdges_iff (hunique : b.Unreplaced) :
    (∀ v w, b.net.Runs f v w → (v, w) ∈ cycleEdges loop) ↔ b.OneCycle f := by
  constructor
  · intro hall
    refine ⟨loop, h.nodup, fun v w => ⟨hall v w, fun hvw => ?_⟩⟩
    exact hunique.successor?_eq_some_iff.1 (h.mem_cycleEdges_iff.1 hvw).2
  · exact fun hcycle v w hr => h.mem_cycleEdges_of_oneCycle hunique hcycle hr

end Closes

/-! ## What is kept -/

section Kept

variable [Hashable F] {name : Text} {m : Mesh}

/-- Every assembled face is an orbit that closes. -/
theorem exists_closes_of_assemble (h : b.assemble name = .ok m) (hf : b.faceLabels[k]? = some f) :
    ∃ loop, b.Closes f loop ∧ m.faces[k]? = some (loop.map b.indexOf) := by
  have hfaces := (assemble_eq_ok_iff.1 h).2.faces
  obtain ⟨hlt, rfl⟩ := List.getElem?_eq_some_iff.1 hf
  have hlt' : k < m.faces.length := hfaces.length_eq ▸ hlt
  obtain ⟨-, loop, hcloses, heq⟩ := hfaces.get hlt hlt'
  exact ⟨loop, hcloses, (List.getElem?_eq_getElem hlt').trans (congrArg some heq)⟩

/--
If no flag replaces another one then the edges of an assembled face are flags of the face,
and a flag is kept as such an edge if it leaves a vertex on the orbit of the face, and is
left out otherwise.  So no flag is left out just when the flags form one directed cycle.
-/
theorem Unreplaced.kept_iff_on_orbit (hunique : b.Unreplaced) (h : b.assemble name = .ok m)
    (hf : b.faceLabels[k]? = some f) :
    ∃ face, m.faces[k]? = some face ∧
      (∀ e ∈ face.edges, ∃ v w, b.net.Runs f v w ∧ e = (b.indexOf v, b.indexOf w)) ∧
      (∀ v w, b.net.Runs f v w →
        ((b.indexOf v, b.indexOf w) ∈ face.edges ↔ ∃ n, b.orbit f n = some v)) ∧
      ((∀ v w, b.net.Runs f v w → (b.indexOf v, b.indexOf w) ∈ face.edges) ↔ b.OneCycle f) := by
  obtain ⟨loop, hcloses, hface⟩ := exists_closes_of_assemble h hf
  refine ⟨_, hface, ?_, fun v w hr => ?_, ?_⟩
  · rintro ⟨i, j⟩ he
    obtain ⟨v, w, hvw, rfl, rfl⟩ := mem_cycleEdges_map.1 he
    exact ⟨v, w, hunique.successor?_eq_some_iff.1 (hcloses.mem_cycleEdges_iff.1 hvw).2, rfl⟩
  · rw [hcloses.mem_edges_iff, hcloses.mem_cycleEdges_iff, hcloses.mem_loop_iff]
    exact and_iff_left (hunique.successor?_eq_some_iff.2 hr)
  · simp only [hcloses.mem_edges_iff]
    exact hcloses.forall_mem_cycleEdges_iff hunique

end Kept

/-! ## Two triangles of one label -/

/-- The flags of two triangles, under one label. -/
def twoTriangles : Blueprint Nat Nat where
  vertices := [(0, .zero), (1, .zero), (2, .zero), (3, .zero), (4, .zero), (5, .zero)]
  flags := [⟨0, 0, 1⟩, ⟨0, 1, 2⟩, ⟨0, 2, 0⟩, ⟨0, 3, 4⟩, ⟨0, 4, 5⟩, ⟨0, 5, 3⟩]

theorem labels_twoTriangles : twoTriangles.labels = [0, 1, 2, 3, 4, 5] := by
  rw [labels_eq_eraseDups]
  rfl

theorem faceLabels_twoTriangles : twoTriangles.faceLabels = [0] := by
  rw [faceLabels_eq_eraseDups]
  rfl

theorem indexOf_twoTriangles {v : Nat} (hv : v < 6) : twoTriangles.indexOf v = v := by
  have hplace : ∀ v < 6, [0, 1, 2, 3, 4, 5].idxOf v = v := by decide
  rw [indexOf, labels_twoTriangles, hplace v hv]

/-- Only the triangle of the first flag is assembled. -/
theorem exists_assemble_twoTriangles :
    ∃ m, twoTriangles.assemble [] = .ok m ∧ m.faces = [[1, 2, 0]] := by
  have haway : ∀ k < 3, 0 < k → twoTriangles.orbit 0 k ≠ twoTriangles.entry? 0 := by decide
  have hdeclared : ∀ v ∈ [1, 2, 0], v ∈ [0, 1, 2, 3, 4, 5] ∧ v < 6 := by decide
  have hcloses : twoTriangles.Closes 0 [1, 2, 0] :=
    { ne_nil := by decide
      along := by decide
      back := by decide
      away := fun k hpos hk => haway k hk hpos
      declared := fun v hv => labels_twoTriangles ▸ (hdeclared v hv).1 }
  have hnumbers : [1, 2, 0].map twoTriangles.indexOf = [1, 2, 0] := by
    rw [List.map_congr_left fun v hv => indexOf_twoTriangles (hdeclared v hv).2]
    rfl
  have hsize : twoTriangles.sizeFault? = none := by
    rw [sizeFault?_eq, labels_twoTriangles, faceLabels_twoTriangles]
    rfl
  refine ⟨_, Except.map_eq_ok.2 ⟨_, faces_eq_ok_iff_assembleFaces.2 ⟨hsize, ?_⟩, rfl⟩, rfl⟩
  rw [assembleFaces_eq_ok_iff, faceLabels_twoTriangles]
  exact .cons ⟨_, hcloses, hnumbers.symm⟩ .nil

theorem unreplaced_twoTriangles : twoTriangles.Unreplaced := by
  rw [Unreplaced]
  decide

/-- The flags of the first triangle are kept, and those of the second one are left out. -/
theorem Unreplaced.kept_twoTriangles :
    ∃ m face, twoTriangles.assemble [] = .ok m ∧ m.faces[0]? = some face ∧
      (twoTriangles.indexOf 0, twoTriangles.indexOf 1) ∈ face.edges ∧
      (twoTriangles.indexOf 3, twoTriangles.indexOf 4) ∉ face.edges ∧
      ¬ twoTriangles.OneCycle 0 := by
  obtain ⟨m, hm, hfaces⟩ := exists_assemble_twoTriangles
  have hlabel : twoTriangles.faceLabels[0]? = some 0 := by
    rw [faceLabels_twoTriangles]
    rfl
  obtain ⟨face, hface, -, hkept, hall⟩ :=
    Unreplaced.kept_iff_on_orbit unreplaced_twoTriangles hm hlabel
  obtain rfl : [1, 2, 0] = face := by simpa [hfaces] using hface
  have hlost : (twoTriangles.indexOf 3, twoTriangles.indexOf 4) ∉ Face.edges [1, 2, 0] := by
    rw [indexOf_twoTriangles (by decide), indexOf_twoTriangles (by decide)]
    decide
  refine ⟨m, _, hm, hface, (hkept 0 1 ?_).2 ⟨2, rfl⟩, hlost, fun hcycle => ?_⟩
  · simp [net, twoTriangles]
  · exact hlost (hall.2 hcycle 3 4 (by simp [net, twoTriangles]))

/-- No flag is replaced, and yet some are in no face of the mesh. -/
theorem assemble_loses_triangle :
    twoTriangles.Unreplaced ∧ ∃ m, twoTriangles.assemble [] = .ok m ∧
      twoTriangles.net.Runs 0 3 4 ∧
      ∀ face ∈ m.faces, (twoTriangles.indexOf 3, twoTriangles.indexOf 4) ∉ face.edges := by
  obtain ⟨m, hm, hfaces⟩ := exists_assemble_twoTriangles
  refine ⟨unreplaced_twoTriangles, m, hm, by simp [net, twoTriangles], fun face hface => ?_⟩
  rw [hfaces, List.mem_singleton] at hface
  rw [hface, indexOf_twoTriangles (by decide), indexOf_twoTriangles (by decide)]
  decide

end Polyhedra.Blueprint
