import Polyhedra.Construction.Family
import Polyhedra.Proofs.Surface.Topology

/-!
# Families of seeds are polyhedra

Prisms, antiprisms and pyramids over polygons with three sides or more.  For each
family the wheels of its vertices are written down, in terms of the neighbours of
a number in the ring of numbers below `n`; that they are right is a matter of
arithmetic.

## Main results

* `Mesh.spherical_prism`, `Mesh.spherical_antiprism`, `Mesh.spherical_pyramid` —
  the members of the families are spherical polyhedra.
-/

namespace Polyhedra

/-! ## The ring of numbers -/

theorem next_cases {n k : Nat} (h : k < n) :
    (k + 1 = n ∧ next n k = 0) ∨ (k + 1 < n ∧ next n k = k + 1) := by
  unfold next
  split <;> omega

/-- A number below twice `n` belongs to the lower or to the upper half, and follows a neighbour. -/
theorem exists_next_half {n v : Nat} (hv : v < n + n) :
    ∃ j k, j < n ∧ next n j = k ∧ (v = k ∨ v = k + n) := by
  rcases Nat.lt_or_ge v n with hlt | hge
  · obtain ⟨j, hj, hnext⟩ := exists_next_eq hlt
    exact ⟨j, v, hj, hnext, .inl rfl⟩
  · obtain ⟨k, rfl⟩ := Nat.exists_eq_add_of_le' hge
    obtain ⟨j, hj, hnext⟩ := exists_next_eq (n := n) (k := k) (by omega)
    exact ⟨j, k, hj, hnext, .inr rfl⟩

theorem mem_cycleEdges_range {n a b : Nat} :
    (a, b) ∈ cycleEdges (List.range n) ↔ a < n ∧ b = next n a := by
  rw [mem_cycleEdges_iff, List.length_range]
  constructor
  · rintro ⟨k, hk, ha, hb⟩
    rw [List.getElem?_range hk] at ha
    rw [List.getElem?_range (next_lt hk)] at hb
    obtain rfl := Option.some.inj ha
    exact ⟨hk, (Option.some.inj hb).symm⟩
  · rintro ⟨hk, rfl⟩
    exact ⟨a, hk, List.getElem?_range hk, List.getElem?_range (next_lt hk)⟩

theorem getElem?_map_range {α : Type} {g : Nat → α} {n i : Nat} {a : α} :
    ((List.range n).map g)[i]? = some a ↔ i < n ∧ a = g i := by
  rw [List.getElem?_map, Option.map_eq_some_iff]
  constructor
  · rintro ⟨k, hk, rfl⟩
    obtain ⟨hlt, rfl⟩ := List.getElem?_eq_some_iff.1 hk
    rw [List.getElem_range]
    exact ⟨by simpa using hlt, rfl⟩
  · rintro ⟨hi, rfl⟩
    exact ⟨i, List.getElem?_range hi, rfl⟩

namespace Mesh

variable {n i j k u v w : Nat} {f g : Face}

/-! ## Polygons -/

theorem mem_descending : v ∈ descending n ↔ v < n := by
  simp [descending]

theorem mem_upperHalf : v ∈ upperHalf n ↔ ∃ k, k < n ∧ v = k + n := by
  simp [upperHalf, eq_comm, Nat.add_comm]

theorem notMem_upperHalf (hv : v ∈ descending n) : v ∉ upperHalf n := by
  intro hv'
  obtain ⟨k, -, rfl⟩ := mem_upperHalf.1 hv'
  have := mem_descending.1 hv
  omega

/-- The upper polygon is run through backwards. -/
theorem mem_edges_descending : (v, w) ∈ (descending n).edges ↔ w < n ∧ v = next n w := by
  rw [descending, Face.edges, mem_cycleEdges_reverse, mem_cycleEdges_range]

theorem mem_edges_upperHalf :
    (v, w) ∈ (upperHalf n).edges ↔ ∃ k, k < n ∧ v = k + n ∧ w = next n k + n := by
  rw [upperHalf, Face.edges, mem_cycleEdges_map]
  constructor
  · rintro ⟨a, b, hab, rfl, rfl⟩
    obtain ⟨ha, rfl⟩ := mem_cycleEdges_range.1 hab
    exact ⟨a, ha, Nat.add_comm n a, Nat.add_comm n _⟩
  · rintro ⟨k, hk, rfl, rfl⟩
    exact ⟨k, next n k, mem_cycleEdges_range.2 ⟨hk, rfl⟩, Nat.add_comm n k, Nat.add_comm n _⟩

/-- Two vertices of a side in the upper polygon are neighbours there. -/
theorem joined_descending (hk : k < n) (huv : u ≠ v) (hu : u = k ∨ u = next n k)
    (hv : v = k ∨ v = next n k) :
    (u, v) ∈ (descending n).edges ∨ (v, u) ∈ (descending n).edges := by
  rw [mem_edges_descending, mem_edges_descending]
  rcases hu with rfl | rfl <;> rcases hv with rfl | rfl
  · exact absurd rfl huv
  · exact .inr ⟨hk, rfl⟩
  · exact .inl ⟨hk, rfl⟩
  · exact absurd rfl huv

theorem joined_upperHalf (hk : k < n) (huv : u ≠ v) (hu : u = k + n ∨ u = next n k + n)
    (hv : v = k + n ∨ v = next n k + n) :
    (u, v) ∈ (upperHalf n).edges ∨ (v, u) ∈ (upperHalf n).edges := by
  rw [mem_edges_upperHalf, mem_edges_upperHalf]
  rcases hu with rfl | rfl <;> rcases hv with rfl | rfl
  · exact absurd rfl huv
  · exact .inl ⟨k, hk, rfl, rfl⟩
  · exact .inr ⟨k, hk, rfl, rfl⟩
  · exact absurd rfl huv

theorem simple_descending (hn : 3 ≤ n) : (descending n).Simple :=
  ⟨List.nodup_reverse.2 List.nodup_range, by simpa [descending] using hn⟩

theorem simple_upperHalf (hn : 3 ≤ n) : (upperHalf n).Simple :=
  ⟨List.nodup_range.map fun _ _ => Nat.add_left_cancel, by simpa [upperHalf] using hn⟩

theorem length_ring (n : Nat) (phase radius height : Float) :
    (ring n phase radius height).length = n := by
  simp [ring]

/-! ## Prisms -/

theorem prismSide_eq (hk : k < n) : prismSide n k = [k, next n k, next n k + n, k + n] := by
  rw [prismSide, mod_eq_next hk]

theorem faces_prism_iff : (prism n).faces[i]? = some f ↔
    (i = 0 ∧ f = descending n) ∨ (i = 1 ∧ f = upperHalf n) ∨
      ∃ k, k < n ∧ i = k + 2 ∧ f = prismSide n k := by
  show (descending n :: upperHalf n :: (List.range n).map (prismSide n))[i]? = some f ↔ _
  rcases i with _ | _ | i
  · simp [eq_comm]
  · simp [eq_comm]
  · rw [List.getElem?_cons_succ, List.getElem?_cons_succ, getElem?_map_range]
    constructor
    · rintro ⟨hk, rfl⟩
      exact .inr (.inr ⟨i, hk, rfl, rfl⟩)
    · rintro (⟨heq, -⟩ | ⟨heq, -⟩ | ⟨k, hk, heq, rfl⟩)
      · omega
      · omega
      · obtain rfl : i = k := by omega
        exact ⟨hk, rfl⟩

theorem runs_prism : (prism n).net.Runs i v w ↔
    (i = 0 ∧ w < n ∧ v = next n w) ∨ (i = 1 ∧ ∃ k, k < n ∧ v = k + n ∧ w = next n k + n) ∨
      ∃ k, k < n ∧ i = k + 2 ∧ ((v = k + n ∧ w = k) ∨ (v = k ∧ w = next n k) ∨
        (v = next n k ∧ w = next n k + n) ∨ (v = next n k + n ∧ w = k + n)) := by
  simp only [← mem_cycleEdges_four]
  constructor
  · rintro ⟨f, hf, he⟩
    rcases faces_prism_iff.1 hf with ⟨rfl, rfl⟩ | ⟨rfl, rfl⟩ | ⟨k, hk, rfl, rfl⟩
    · exact .inl ⟨rfl, mem_edges_descending.1 he⟩
    · exact .inr (.inl ⟨rfl, mem_edges_upperHalf.1 he⟩)
    · exact .inr (.inr ⟨k, hk, rfl, prismSide_eq hk ▸ he⟩)
  · rintro (⟨rfl, he⟩ | ⟨rfl, he⟩ | ⟨k, hk, rfl, he⟩)
    · exact ⟨_, faces_prism_iff.2 (.inl ⟨rfl, rfl⟩), mem_edges_descending.2 he⟩
    · exact ⟨_, faces_prism_iff.2 (.inr (.inl ⟨rfl, rfl⟩)), mem_edges_upperHalf.2 he⟩
    · exact ⟨_, faces_prism_iff.2 (.inr (.inr ⟨k, hk, rfl, rfl⟩)), (prismSide_eq hk).symm ▸ he⟩

theorem wheel_prism_upper (hn : 3 ≤ n) (hj : j < n) (hk : next n j = k) :
    (prism n).net.Wheel k [(0, j), (k + 2, next n k), (j + 2, k + n)] := by
  have hjk := next_cases hj
  have hlt : k < n := hk ▸ next_lt hj
  have hkl := next_cases hlt
  refine ⟨by simp; omega, by simp; omega, by simp, fun f w => ?_, fun x y hxy => ?_⟩
  · rw [runs_prism]
    simp only [List.mem_cons, Prod.mk.injEq, List.not_mem_nil, or_false]
    constructor
    · rintro (⟨rfl, hw, heq⟩ | ⟨rfl, i, hi, heq, -⟩ | ⟨i, hi, rfl,
        ⟨heq, -⟩ | ⟨rfl, rfl⟩ | ⟨heq, rfl⟩ | ⟨heq, -⟩⟩)
      · exact .inl ⟨rfl, next_inj (heq.symm.trans hk.symm)⟩
      · omega
      · omega
      · exact .inr (.inl ⟨rfl, rfl⟩)
      · obtain rfl := next_inj (heq.symm.trans hk.symm)
        exact .inr (.inr ⟨rfl, by rw [heq]⟩)
      · omega
    · rintro (⟨rfl, rfl⟩ | ⟨rfl, rfl⟩ | ⟨rfl, rfl⟩)
      · exact .inl ⟨rfl, hj, hk.symm⟩
      · exact .inr (.inr ⟨k, hlt, rfl, .inr (.inl ⟨rfl, rfl⟩)⟩)
      · exact .inr (.inr ⟨j, hj, rfl, .inr (.inr (.inl ⟨hk.symm, by rw [hk]⟩))⟩)
  · rw [mem_cycleEdges_three] at hxy
    rw [runs_prism]
    rcases hxy with ⟨rfl, rfl⟩ | ⟨rfl, rfl⟩ | ⟨rfl, rfl⟩
    · exact .inr (.inr ⟨j, hj, rfl, .inr (.inl ⟨rfl, hk.symm⟩)⟩)
    · exact .inl ⟨rfl, hlt, rfl⟩
    · exact .inr (.inr ⟨k, hlt, rfl, .inl ⟨rfl, rfl⟩⟩)

theorem wheel_prism_lower (hn : 3 ≤ n) (hj : j < n) (hk : next n j = k) :
    (prism n).net.Wheel (k + n) [(1, next n k + n), (j + 2, j + n), (k + 2, k)] := by
  have hjk := next_cases hj
  have hlt : k < n := hk ▸ next_lt hj
  have hkl := next_cases hlt
  refine ⟨by simp; omega, by simp; omega, by simp, fun f w => ?_, fun x y hxy => ?_⟩
  · rw [runs_prism]
    simp only [List.mem_cons, Prod.mk.injEq, List.not_mem_nil, or_false]
    constructor
    · rintro (⟨rfl, hw, heq⟩ | ⟨rfl, i, hi, heq, rfl⟩ | ⟨i, hi, rfl,
        ⟨heq, rfl⟩ | ⟨heq, -⟩ | ⟨heq, -⟩ | ⟨heq, rfl⟩⟩)
      · have := next_lt hw
        omega
      · obtain rfl := Nat.add_right_cancel heq
        exact .inl ⟨rfl, rfl⟩
      · obtain rfl := Nat.add_right_cancel heq
        exact .inr (.inr ⟨rfl, rfl⟩)
      · omega
      · have := next_lt hi
        omega
      · obtain rfl := next_inj ((Nat.add_right_cancel heq).symm.trans hk.symm)
        exact .inr (.inl ⟨rfl, rfl⟩)
    · rintro (⟨rfl, rfl⟩ | ⟨rfl, rfl⟩ | ⟨rfl, rfl⟩)
      · exact .inr (.inl ⟨rfl, k, hlt, rfl, rfl⟩)
      · exact .inr (.inr ⟨j, hj, rfl, .inr (.inr (.inr ⟨by rw [hk], rfl⟩))⟩)
      · exact .inr (.inr ⟨_, hlt, rfl, .inl ⟨rfl, rfl⟩⟩)
  · rw [mem_cycleEdges_three] at hxy
    rw [runs_prism]
    rcases hxy with ⟨rfl, rfl⟩ | ⟨rfl, rfl⟩ | ⟨rfl, rfl⟩
    · exact .inr (.inr ⟨k, hlt, rfl, .inr (.inr (.inr ⟨rfl, rfl⟩))⟩)
    · exact .inr (.inl ⟨rfl, j, hj, rfl, by rw [hk]⟩)
    · exact .inr (.inr ⟨j, hj, rfl, .inr (.inr (.inl ⟨hk.symm, by rw [hk]⟩))⟩)

/-- Opposite vertices of a side lie in no other face. -/
theorem not_opposite_prism (hn : 3 ≤ n) (hg : (prism n).faces[j]? = some g) (hk : k < n)
    (hne : k + 2 ≠ j) :
    (k ∈ g → next n k + n ∉ g) ∧ (next n k ∈ g → k + n ∉ g) := by
  have hkl := next_cases hk
  rcases faces_prism_iff.1 hg with ⟨rfl, rfl⟩ | ⟨rfl, rfl⟩ | ⟨l, hl, rfl, rfl⟩
  · simp only [mem_descending]
    omega
  · simp only [mem_upperHalf]
    have := next_lt hk
    refine ⟨?_, ?_⟩ <;> rintro ⟨i, hi, heq⟩ <;> omega
  · have hll := next_cases hl
    rw [prismSide_eq hl]
    simp only [List.mem_cons, List.not_mem_nil, or_false]
    omega

theorem meet_prism (hn : 3 ≤ n) (hf : (prism n).faces[i]? = some f)
    (hg : (prism n).faces[j]? = some g) (hij : i ≠ j) (huv : u ≠ v) (hu : u ∈ f) (hu' : u ∈ g)
    (hv : v ∈ f) (hv' : v ∈ g) : (u, v) ∈ f.edges ∨ (v, u) ∈ f.edges := by
  have upper : ∀ {k x}, x ∈ descending n → x ∈ prismSide n k → k < n → x = k ∨ x = next n k := by
    intro k x hx hx' hk
    rw [prismSide_eq hk] at hx'
    rw [mem_descending] at hx
    simp only [List.mem_cons, List.not_mem_nil, or_false] at hx'
    omega
  have lower : ∀ {k x}, x ∈ upperHalf n → x ∈ prismSide n k → k < n →
      x = k + n ∨ x = next n k + n := by
    intro k x hx hx' hk
    rw [prismSide_eq hk] at hx'
    rw [mem_upperHalf] at hx
    have := next_lt hk
    simp only [List.mem_cons, List.not_mem_nil, or_false] at hx'
    omega
  rcases faces_prism_iff.1 hf with ⟨rfl, rfl⟩ | ⟨rfl, rfl⟩ | ⟨k, hk, rfl, rfl⟩
  · rcases faces_prism_iff.1 hg with ⟨rfl, rfl⟩ | ⟨rfl, rfl⟩ | ⟨l, hl, rfl, rfl⟩
    · exact absurd rfl hij
    · exact absurd hu' (notMem_upperHalf hu)
    · exact joined_descending hl huv (upper hu hu' hl) (upper hv hv' hl)
  · rcases faces_prism_iff.1 hg with ⟨rfl, rfl⟩ | ⟨rfl, rfl⟩ | ⟨l, hl, rfl, rfl⟩
    · exact absurd hu (notMem_upperHalf hu')
    · exact absurd rfl hij
    · exact joined_upperHalf hl huv (lower hu hu' hl) (lower hv hv' hl)
  · obtain ⟨hdown, hup⟩ := not_opposite_prism hn hg hk hij
    rw [prismSide_eq hk] at hu hv ⊢
    simp only [List.mem_cons, List.not_mem_nil, or_false] at hu hv
    rw [Face.edges, mem_cycleEdges_four, mem_cycleEdges_four]
    grind

theorem simple_prism (hn : 3 ≤ n) : ∀ f ∈ (prism n).faces, f.Simple := by
  intro f hf
  obtain ⟨i, hi⟩ := List.mem_iff_getElem?.1 hf
  rcases faces_prism_iff.1 hi with ⟨-, rfl⟩ | ⟨-, rfl⟩ | ⟨k, hk, -, rfl⟩
  · exact simple_descending hn
  · exact simple_upperHalf hn
  · have := next_cases hk
    rw [prismSide_eq hk]
    refine ⟨?_, by simp⟩
    simp
    omega

theorem vertexCount_prism (n : Nat) : (prism n).vertexCount = n + n := by
  simp [prism, vertexCount, length_ring]

theorem faceCount_prism (n : Nat) : (prism n).faceCount = n + 2 := by
  simp [faceCount, prism, prismFaces]

theorem spherical_prism (hn : 3 ≤ n) : (prism n).Spherical := by
  refine .of_wheels (simple_prism hn) (fun i v w hr => ?_) (fun v hv => ?_)
    (fun i j f g hf hg hij u v huv hu hu' hv hv' =>
      meet_prism hn hf hg hij huv hu hu' hv hv') ?_
  · rw [vertexCount_prism]
    rcases runs_prism.1 hr with ⟨-, hw, rfl⟩ | ⟨-, k, hk, rfl, -⟩ | ⟨k, hk, -, he⟩
    · have := next_lt hw
      omega
    · omega
    · have := next_lt hk
      omega
  · rw [vertexCount_prism] at hv
    obtain ⟨j, k, hj, hnext, rfl | rfl⟩ := exists_next_half hv
    · exact ⟨_, wheel_prism_upper hn hj hnext⟩
    · exact ⟨_, wheel_prism_lower hn hj hnext⟩
  · rw [vertexCount_prism, length_directedEdges, faceCount]
    simp [prism, prismFaces, descending, upperHalf, prismSide, Function.comp_def]
    omega

/-! ## Antiprisms -/

/-- The side that points up at the vertex `k`. -/
def antiprismUp (n k : Nat) : Face := [k, next n k, k + n]

/-- The side that points down between the vertex `j` and the next one. -/
def antiprismDown (n j : Nat) : Face := [next n j, next n j + n, j + n]

theorem antiprismSides_next (hj : j < n) :
    antiprismSides n (next n j) = [antiprismUp n (next n j), antiprismDown n j] := by
  have hback : (n + next n j - 1) % n = j := by
    rcases next_cases hj with ⟨hlast, hnext⟩ | ⟨hlt, hnext⟩ <;> rw [hnext]
    · rw [← hlast]
      exact Nat.mod_eq_of_lt (by omega)
    · rw [← Nat.add_assoc, Nat.add_sub_cancel, Nat.add_mod_left, Nat.mod_eq_of_lt hj]
  rw [antiprismSides, hback, mod_eq_next (next_lt hj)]
  rfl

/-- Entries that come in pairs are at twice their number and after it. -/
theorem getElem?_flatMap_pair {α : Type} {sides : Nat → List α} {n i : Nat} {a : α}
    (hpair : ∀ k, (sides k).length = 2) :
    ((List.range n).flatMap sides)[i]? = some a ↔
      ∃ k, k < n ∧ ∃ r, i = 2 * k + r ∧ (sides k)[r]? = some a := by
  have hlength : ∀ n, ((List.range n).flatMap sides).length = 2 * n := by
    intro n
    simp [List.length_flatMap, hpair, Nat.mul_comm]
  have hr : ∀ {k r}, (sides k)[r]? = some a → r < 2 := by
    intro k r h
    exact hpair k ▸ (List.getElem?_eq_some_iff.1 h).1
  induction n with
  | zero => simp
  | succ n ih =>
    rw [List.range_succ, List.flatMap_append, List.flatMap_singleton]
    rcases Nat.lt_or_ge i (2 * n) with hlt | hge
    · rw [List.getElem?_append_left (by rwa [hlength])]
      refine ih.trans ⟨?_, ?_⟩
      · rintro ⟨k, hk, hentry⟩
        exact ⟨k, Nat.lt_succ_of_lt hk, hentry⟩
      · rintro ⟨k, hk, r, rfl, hentry⟩
        exact ⟨k, by omega, r, rfl, hentry⟩
    · rw [List.getElem?_append_right (by rwa [hlength]), hlength]
      constructor
      · exact fun h => ⟨n, Nat.lt_succ_self n, i - 2 * n, by omega, h⟩
      · rintro ⟨k, hk, r, rfl, hentry⟩
        have := hr hentry
        obtain rfl : k = n := by omega
        rwa [Nat.add_sub_cancel_left]

theorem faces_antiprism_iff : (antiprism n).faces[i]? = some f ↔
    (i = 0 ∧ f = descending n) ∨ (i = 1 ∧ f = upperHalf n) ∨
      (∃ k, k < n ∧ i = 2 * k + 2 ∧ f = antiprismUp n k) ∨
        ∃ j, j < n ∧ i = 2 * next n j + 3 ∧ f = antiprismDown n j := by
  show (descending n :: upperHalf n :: (List.range n).flatMap (antiprismSides n))[i]? = some f ↔ _
  rcases i with _ | _ | i
  · simp [eq_comm]
  · simp [eq_comm]
  · rw [List.getElem?_cons_succ, List.getElem?_cons_succ, getElem?_flatMap_pair fun _ => rfl]
    constructor
    · rintro ⟨k, hk, r, rfl, hf⟩
      obtain ⟨j, hj, rfl⟩ := exists_next_eq hk
      rw [antiprismSides_next hj] at hf
      rcases r with _ | _ | r
      · obtain rfl : antiprismUp n (next n j) = f := by simpa using hf
        exact .inr (.inr (.inl ⟨_, hk, rfl, rfl⟩))
      · obtain rfl : antiprismDown n j = f := by simpa using hf
        exact .inr (.inr (.inr ⟨j, hj, rfl, rfl⟩))
      · simp at hf
    · rintro (⟨heq, -⟩ | ⟨heq, -⟩ | ⟨k, hk, heq, rfl⟩ | ⟨j, hj, heq, rfl⟩)
      · omega
      · omega
      · obtain ⟨j, hj, rfl⟩ := exists_next_eq hk
        exact ⟨_, hk, 0, by omega, by rw [antiprismSides_next hj]; rfl⟩
      · exact ⟨_, next_lt hj, 1, by omega, by rw [antiprismSides_next hj]; rfl⟩

theorem runs_antiprism : (antiprism n).net.Runs i v w ↔
    (i = 0 ∧ w < n ∧ v = next n w) ∨ (i = 1 ∧ ∃ k, k < n ∧ v = k + n ∧ w = next n k + n) ∨
      (∃ k, k < n ∧ i = 2 * k + 2 ∧
        ((v = k + n ∧ w = k) ∨ (v = k ∧ w = next n k) ∨ (v = next n k ∧ w = k + n))) ∨
      ∃ j, j < n ∧ i = 2 * next n j + 3 ∧ ((v = j + n ∧ w = next n j) ∨
        (v = next n j ∧ w = next n j + n) ∨ (v = next n j + n ∧ w = j + n)) := by
  simp only [← mem_cycleEdges_three]
  constructor
  · rintro ⟨f, hf, he⟩
    rcases faces_antiprism_iff.1 hf with ⟨rfl, rfl⟩ | ⟨rfl, rfl⟩ | ⟨k, hk, rfl, rfl⟩ |
      ⟨j, hj, rfl, rfl⟩
    · exact .inl ⟨rfl, mem_edges_descending.1 he⟩
    · exact .inr (.inl ⟨rfl, mem_edges_upperHalf.1 he⟩)
    · exact .inr (.inr (.inl ⟨k, hk, rfl, he⟩))
    · exact .inr (.inr (.inr ⟨j, hj, rfl, he⟩))
  · rintro (⟨rfl, he⟩ | ⟨rfl, he⟩ | ⟨k, hk, rfl, he⟩ | ⟨j, hj, rfl, he⟩)
    · exact ⟨_, faces_antiprism_iff.2 (.inl ⟨rfl, rfl⟩), mem_edges_descending.2 he⟩
    · exact ⟨_, faces_antiprism_iff.2 (.inr (.inl ⟨rfl, rfl⟩)), mem_edges_upperHalf.2 he⟩
    · exact ⟨_, faces_antiprism_iff.2 (.inr (.inr (.inl ⟨k, hk, rfl, rfl⟩))), he⟩
    · exact ⟨_, faces_antiprism_iff.2 (.inr (.inr (.inr ⟨j, hj, rfl, rfl⟩))), he⟩

theorem wheel_antiprism_upper (hn : 3 ≤ n) (hj : j < n) (hk : next n j = k) :
    (antiprism n).net.Wheel k
      [(0, j), (2 * k + 2, next n k), (2 * k + 3, k + n), (2 * j + 2, j + n)] := by
  have hjk := next_cases hj
  have hlt : k < n := hk ▸ next_lt hj
  have hkl := next_cases hlt
  refine ⟨by simp; omega, by simp; omega, by simp, fun f w => ?_, fun x y hxy => ?_⟩
  · rw [runs_antiprism]
    simp only [List.mem_cons, Prod.mk.injEq, List.not_mem_nil, or_false]
    constructor
    · rintro (⟨rfl, hw, heq⟩ | ⟨rfl, i, hi, heq, -⟩ |
        ⟨i, hi, rfl, ⟨heq, -⟩ | ⟨rfl, rfl⟩ | ⟨heq, rfl⟩⟩ |
        ⟨i, hi, rfl, ⟨heq, -⟩ | ⟨rfl, rfl⟩ | ⟨heq, -⟩⟩)
      · exact .inl ⟨rfl, next_inj (heq.symm.trans hk.symm)⟩
      · omega
      · omega
      · exact .inr (.inl ⟨rfl, rfl⟩)
      · obtain rfl := next_inj (heq.symm.trans hk.symm)
        exact .inr (.inr (.inr ⟨rfl, rfl⟩))
      · omega
      · exact .inr (.inr (.inl ⟨rfl, rfl⟩))
      · omega
    · rintro (⟨rfl, rfl⟩ | ⟨rfl, rfl⟩ | ⟨rfl, rfl⟩ | ⟨rfl, rfl⟩)
      · exact .inl ⟨rfl, hj, hk.symm⟩
      · exact .inr (.inr (.inl ⟨k, hlt, rfl, .inr (.inl ⟨rfl, rfl⟩)⟩))
      · exact .inr (.inr (.inr ⟨j, hj, by rw [hk], .inr (.inl ⟨hk.symm, by rw [hk]⟩)⟩))
      · exact .inr (.inr (.inl ⟨j, hj, rfl, .inr (.inr ⟨hk.symm, rfl⟩)⟩))
  · rw [mem_cycleEdges_four] at hxy
    rw [runs_antiprism]
    rcases hxy with ⟨rfl, rfl⟩ | ⟨rfl, rfl⟩ | ⟨rfl, rfl⟩ | ⟨rfl, rfl⟩
    · exact .inr (.inr (.inl ⟨j, hj, rfl, .inr (.inl ⟨rfl, hk.symm⟩)⟩))
    · exact .inl ⟨rfl, hlt, rfl⟩
    · exact .inr (.inr (.inl ⟨k, hlt, rfl, .inl ⟨rfl, rfl⟩⟩))
    · exact .inr (.inr (.inr ⟨j, hj, by rw [hk], .inl ⟨rfl, hk.symm⟩⟩))

theorem wheel_antiprism_lower (hn : 3 ≤ n) (hj : j < n) (hk : next n j = k) :
    (antiprism n).net.Wheel (k + n)
      [(1, next n k + n), (2 * k + 3, j + n), (2 * k + 2, k), (2 * next n k + 3, next n k)] := by
  have hjk := next_cases hj
  have hlt : k < n := hk ▸ next_lt hj
  have hkl := next_cases hlt
  refine ⟨by simp; omega, by simp; omega, by simp, fun f w => ?_, fun x y hxy => ?_⟩
  · rw [runs_antiprism]
    simp only [List.mem_cons, Prod.mk.injEq, List.not_mem_nil, or_false]
    constructor
    · rintro (⟨rfl, hw, heq⟩ | ⟨rfl, i, hi, heq, rfl⟩ |
        ⟨i, hi, rfl, ⟨heq, rfl⟩ | ⟨heq, -⟩ | ⟨heq, -⟩⟩ |
        ⟨i, hi, rfl, ⟨heq, rfl⟩ | ⟨heq, -⟩ | ⟨heq, rfl⟩⟩)
      · have := next_lt hw
        omega
      · obtain rfl := Nat.add_right_cancel heq
        exact .inl ⟨rfl, rfl⟩
      · obtain rfl := Nat.add_right_cancel heq
        exact .inr (.inr (.inl ⟨rfl, rfl⟩))
      · omega
      · have := next_lt hi
        omega
      · obtain rfl := Nat.add_right_cancel heq
        exact .inr (.inr (.inr ⟨rfl, rfl⟩))
      · have := next_lt hi
        omega
      · obtain rfl := next_inj ((Nat.add_right_cancel heq).symm.trans hk.symm)
        exact .inr (.inl ⟨by rw [hk], rfl⟩)
    · rintro (⟨rfl, rfl⟩ | ⟨rfl, rfl⟩ | ⟨rfl, rfl⟩ | ⟨rfl, rfl⟩)
      · exact .inr (.inl ⟨rfl, k, hlt, rfl, rfl⟩)
      · exact .inr (.inr (.inr ⟨j, hj, by rw [hk], .inr (.inr ⟨by rw [hk], rfl⟩)⟩))
      · exact .inr (.inr (.inl ⟨_, hlt, rfl, .inl ⟨rfl, rfl⟩⟩))
      · exact .inr (.inr (.inr ⟨k, hlt, rfl, .inl ⟨rfl, rfl⟩⟩))
  · rw [mem_cycleEdges_four] at hxy
    rw [runs_antiprism]
    rcases hxy with ⟨rfl, rfl⟩ | ⟨rfl, rfl⟩ | ⟨rfl, rfl⟩ | ⟨rfl, rfl⟩
    · exact .inr (.inr (.inr ⟨k, hlt, rfl, .inr (.inr ⟨rfl, rfl⟩)⟩))
    · exact .inr (.inl ⟨rfl, j, hj, rfl, by rw [hk]⟩)
    · exact .inr (.inr (.inr ⟨j, hj, by rw [hk], .inr (.inl ⟨hk.symm, by rw [hk]⟩)⟩))
    · exact .inr (.inr (.inl ⟨k, hlt, rfl, .inr (.inr ⟨rfl, rfl⟩)⟩))

theorem meet_antiprism (hf : (antiprism n).faces[i]? = some f)
    (hg : (antiprism n).faces[j]? = some g) (hij : i ≠ j) (huv : u ≠ v) (hu : u ∈ f) (hu' : u ∈ g)
    (hv : v ∈ f) (hv' : v ∈ g) : (u, v) ∈ f.edges ∨ (v, u) ∈ f.edges := by
  rcases faces_antiprism_iff.1 hf with ⟨rfl, rfl⟩ | ⟨rfl, rfl⟩ | ⟨k, -, -, rfl⟩ | ⟨k, -, -, rfl⟩
  · rcases faces_antiprism_iff.1 hg with ⟨rfl, rfl⟩ | ⟨rfl, rfl⟩ | ⟨l, hl, rfl, rfl⟩ |
      ⟨l, hl, rfl, rfl⟩
    · exact absurd rfl hij
    · exact absurd hu' (notMem_upperHalf hu)
    · rw [mem_descending] at hu hv
      simp only [antiprismUp, List.mem_cons, List.not_mem_nil, or_false] at hu' hv'
      exact joined_descending hl huv (by omega) (by omega)
    · rw [mem_descending] at hu hv
      simp only [antiprismDown, List.mem_cons, List.not_mem_nil, or_false] at hu' hv'
      omega
  · rcases faces_antiprism_iff.1 hg with ⟨rfl, rfl⟩ | ⟨rfl, rfl⟩ | ⟨l, hl, rfl, rfl⟩ |
      ⟨l, hl, rfl, rfl⟩
    · exact absurd hu (notMem_upperHalf hu')
    · exact absurd rfl hij
    · obtain ⟨a, -, rfl⟩ := mem_upperHalf.1 hu
      obtain ⟨b, -, rfl⟩ := mem_upperHalf.1 hv
      have := next_lt hl
      simp only [antiprismUp, List.mem_cons, List.not_mem_nil, or_false] at hu' hv'
      omega
    · obtain ⟨a, -, rfl⟩ := mem_upperHalf.1 hu
      obtain ⟨b, -, rfl⟩ := mem_upperHalf.1 hv
      have := next_lt hl
      simp only [antiprismDown, List.mem_cons, List.not_mem_nil, or_false] at hu' hv'
      exact joined_upperHalf hl huv (by omega) (by omega)
  · exact joined_of_mem_three huv hu hv
  · exact joined_of_mem_three huv hu hv

theorem simple_antiprism (hn : 3 ≤ n) : ∀ f ∈ (antiprism n).faces, f.Simple := by
  intro f hf
  obtain ⟨i, hi⟩ := List.mem_iff_getElem?.1 hf
  rcases faces_antiprism_iff.1 hi with ⟨-, rfl⟩ | ⟨-, rfl⟩ | ⟨k, hk, -, rfl⟩ | ⟨k, hk, -, rfl⟩
  · exact simple_descending hn
  · exact simple_upperHalf hn
  · have := next_cases hk
    refine ⟨?_, by simp [antiprismUp]⟩
    simp [antiprismUp]
    omega
  · have := next_cases hk
    refine ⟨?_, by simp [antiprismDown]⟩
    simp [antiprismDown]
    omega

theorem vertexCount_antiprism (n : Nat) : (antiprism n).vertexCount = n + n := by
  simp [antiprism, vertexCount, length_ring]

theorem faceCount_antiprism (n : Nat) : (antiprism n).faceCount = 2 * n + 2 := by
  simp [faceCount, antiprism, antiprismFaces, antiprismSides, List.length_flatMap, Nat.mul_comm]

theorem spherical_antiprism (hn : 3 ≤ n) : (antiprism n).Spherical := by
  refine .of_wheels (simple_antiprism hn) (fun i v w hr => ?_) (fun v hv => ?_)
    (fun i j f g hf hg hij u v huv hu hu' hv hv' =>
      meet_antiprism hf hg hij huv hu hu' hv hv') ?_
  · rw [vertexCount_antiprism]
    rcases runs_antiprism.1 hr with ⟨-, hw, rfl⟩ | ⟨-, k, hk, rfl, -⟩ | ⟨k, hk, -, he⟩ |
      ⟨k, hk, -, he⟩
    · have := next_lt hw
      omega
    · omega
    · have := next_lt hk
      omega
    · have := next_lt hk
      omega
  · rw [vertexCount_antiprism] at hv
    obtain ⟨j, k, hj, hnext, rfl | rfl⟩ := exists_next_half hv
    · exact ⟨_, wheel_antiprism_upper hn hj hnext⟩
    · exact ⟨_, wheel_antiprism_lower hn hj hnext⟩
  · rw [vertexCount_antiprism, length_directedEdges, faceCount]
    simp [antiprism, antiprismFaces, descending, upperHalf, antiprismSides, List.flatMap_def,
      List.map_flatten, List.sum_flatten, Function.comp_def]
    omega

/-! ## Pyramids -/

theorem pyramidSide_eq (hk : k < n) : pyramidSide n k = [k, next n k, n] := by
  rw [pyramidSide, mod_eq_next hk]

theorem faces_pyramid_iff : (pyramid n).faces[i]? = some f ↔
    (i = 0 ∧ f = descending n) ∨ ∃ k, k < n ∧ i = k + 1 ∧ f = pyramidSide n k := by
  show (descending n :: (List.range n).map (pyramidSide n))[i]? = some f ↔ _
  rcases i with _ | i
  · simp [eq_comm]
  · rw [List.getElem?_cons_succ, getElem?_map_range]
    constructor
    · rintro ⟨hk, rfl⟩
      exact .inr ⟨i, hk, rfl, rfl⟩
    · rintro (⟨heq, -⟩ | ⟨k, hk, heq, rfl⟩)
      · omega
      · obtain rfl : i = k := by omega
        exact ⟨hk, rfl⟩

theorem runs_pyramid : (pyramid n).net.Runs i v w ↔
    (i = 0 ∧ w < n ∧ v = next n w) ∨ ∃ k, k < n ∧ i = k + 1 ∧
      ((v = n ∧ w = k) ∨ (v = k ∧ w = next n k) ∨ (v = next n k ∧ w = n)) := by
  simp only [← mem_cycleEdges_three]
  constructor
  · rintro ⟨f, hf, he⟩
    rcases faces_pyramid_iff.1 hf with ⟨rfl, rfl⟩ | ⟨k, hk, rfl, rfl⟩
    · exact .inl ⟨rfl, mem_edges_descending.1 he⟩
    · exact .inr ⟨k, hk, rfl, pyramidSide_eq hk ▸ he⟩
  · rintro (⟨rfl, he⟩ | ⟨k, hk, rfl, he⟩)
    · exact ⟨_, faces_pyramid_iff.2 (.inl ⟨rfl, rfl⟩), mem_edges_descending.2 he⟩
    · exact ⟨_, faces_pyramid_iff.2 (.inr ⟨k, hk, rfl, rfl⟩), (pyramidSide_eq hk).symm ▸ he⟩

theorem wheel_pyramid_base (hn : 3 ≤ n) (hj : j < n) (hk : next n j = k) :
    (pyramid n).net.Wheel k [(0, j), (k + 1, next n k), (j + 1, n)] := by
  have hjk := next_cases hj
  have hlt : k < n := hk ▸ next_lt hj
  have hkl := next_cases hlt
  refine ⟨by simp; omega, by simp; omega, by simp, fun f w => ?_, fun x y hxy => ?_⟩
  · rw [runs_pyramid]
    simp only [List.mem_cons, Prod.mk.injEq, List.not_mem_nil, or_false]
    constructor
    · rintro (⟨rfl, hw, heq⟩ | ⟨i, hi, rfl, ⟨heq, -⟩ | ⟨rfl, rfl⟩ | ⟨heq, rfl⟩⟩)
      · exact .inl ⟨rfl, next_inj (heq.symm.trans hk.symm)⟩
      · omega
      · exact .inr (.inl ⟨rfl, rfl⟩)
      · obtain rfl := next_inj (heq.symm.trans hk.symm)
        exact .inr (.inr ⟨rfl, rfl⟩)
    · rintro (⟨rfl, rfl⟩ | ⟨rfl, rfl⟩ | ⟨rfl, rfl⟩)
      · exact .inl ⟨rfl, hj, hk.symm⟩
      · exact .inr ⟨k, hlt, rfl, .inr (.inl ⟨rfl, rfl⟩)⟩
      · exact .inr ⟨j, hj, rfl, .inr (.inr ⟨hk.symm, rfl⟩)⟩
  · rw [mem_cycleEdges_three] at hxy
    rw [runs_pyramid]
    rcases hxy with ⟨rfl, rfl⟩ | ⟨rfl, rfl⟩ | ⟨rfl, rfl⟩
    · exact .inr ⟨j, hj, rfl, .inr (.inl ⟨rfl, hk.symm⟩)⟩
    · exact .inl ⟨rfl, hlt, rfl⟩
    · exact .inr ⟨k, hlt, rfl, .inl ⟨rfl, rfl⟩⟩

/-- Around the apex the sides follow one another as the numbers do. -/
theorem wheel_pyramid_apex (hn : 3 ≤ n) :
    (pyramid n).net.Wheel n ((List.range n).map fun k => (k + 1, k)) where
  faces_nodup := by
    rw [List.map_map]
    exact List.nodup_range.map fun _ _ => Nat.add_right_cancel
  spokes_nodup := by
    rw [List.map_map]
    exact List.nodup_range.map fun _ _ heq => heq
  three_le := by simpa using hn
  runs_iff f w := by
    rw [runs_pyramid, List.mem_map]
    constructor
    · rintro (⟨rfl, hw, heq⟩ | ⟨k, hk, rfl, ⟨-, rfl⟩ | ⟨heq, -⟩ | ⟨heq, -⟩⟩)
      · have := next_lt hw
        omega
      · exact ⟨w, List.mem_range.2 hk, rfl⟩
      · omega
      · have := next_lt hk
        omega
    · rintro ⟨k, hk, heq⟩
      obtain ⟨rfl, rfl⟩ := Prod.mk.inj heq
      exact .inr ⟨k, List.mem_range.1 hk, rfl, .inl ⟨rfl, rfl⟩⟩
  across x y hxy := by
    obtain ⟨a, b, hab, rfl, rfl⟩ := mem_cycleEdges_map.1 hxy
    obtain ⟨ha, rfl⟩ := mem_cycleEdges_range.1 hab
    exact runs_pyramid.2 (.inr ⟨a, ha, rfl, .inr (.inr ⟨rfl, rfl⟩)⟩)

theorem meet_pyramid (hf : (pyramid n).faces[i]? = some f) (hg : (pyramid n).faces[j]? = some g)
    (hij : i ≠ j) (huv : u ≠ v) (hu : u ∈ f) (hu' : u ∈ g) (hv : v ∈ f) (hv' : v ∈ g) :
    (u, v) ∈ f.edges ∨ (v, u) ∈ f.edges := by
  rcases faces_pyramid_iff.1 hf with ⟨rfl, rfl⟩ | ⟨k, hk, -, rfl⟩
  · rcases faces_pyramid_iff.1 hg with ⟨rfl, rfl⟩ | ⟨l, hl, rfl, rfl⟩
    · exact absurd rfl hij
    · rw [mem_descending] at hu hv
      rw [pyramidSide_eq hl] at hu' hv'
      simp only [List.mem_cons, List.not_mem_nil, or_false] at hu' hv'
      exact joined_descending hl huv (by omega) (by omega)
  · rw [pyramidSide_eq hk] at hu hv ⊢
    exact joined_of_mem_three huv hu hv

theorem simple_pyramid (hn : 3 ≤ n) : ∀ f ∈ (pyramid n).faces, f.Simple := by
  intro f hf
  obtain ⟨i, hi⟩ := List.mem_iff_getElem?.1 hf
  rcases faces_pyramid_iff.1 hi with ⟨-, rfl⟩ | ⟨k, hk, -, rfl⟩
  · exact simple_descending hn
  · have := next_cases hk
    rw [pyramidSide_eq hk]
    refine ⟨?_, by simp⟩
    simp
    omega

theorem vertexCount_pyramid (n : Nat) : (pyramid n).vertexCount = n + 1 := by
  simp [pyramid, vertexCount, length_ring]

theorem faceCount_pyramid (n : Nat) : (pyramid n).faceCount = n + 1 := by
  simp [faceCount, pyramid, pyramidFaces]

theorem spherical_pyramid (hn : 3 ≤ n) : (pyramid n).Spherical := by
  refine .of_wheels (simple_pyramid hn) (fun i v w hr => ?_) (fun v hv => ?_)
    (fun i j f g hf hg hij u v huv hu hu' hv hv' =>
      meet_pyramid hf hg hij huv hu hu' hv hv') ?_
  · rw [vertexCount_pyramid]
    rcases runs_pyramid.1 hr with ⟨-, hw, rfl⟩ | ⟨k, hk, -, he⟩
    · have := next_lt hw
      omega
    · have := next_lt hk
      omega
  · rw [vertexCount_pyramid] at hv
    rcases Nat.lt_or_ge v n with hlt | hge
    · obtain ⟨j, hj, hnext⟩ := exists_next_eq hlt
      exact ⟨_, wheel_pyramid_base hn hj hnext⟩
    · obtain rfl : v = n := by omega
      exact ⟨_, wheel_pyramid_apex hn⟩
  · rw [vertexCount_pyramid, length_directedEdges, faceCount]
    simp [pyramid, pyramidFaces, descending, pyramidSide, Function.comp_def]
    omega

end Mesh

end Polyhedra
