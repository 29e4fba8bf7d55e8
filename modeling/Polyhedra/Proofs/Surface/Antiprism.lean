import Polyhedra.Proofs.Surface.Absorption

/-!
# The ambo of a pyramid

The ambo of a pyramid is an antiprism.  Its vertices stand on the rim of the base
and on the spokes to the apex; its two large faces are the base, which runs round
the rim, and the one at the apex, which runs round the spokes the other way.  In
between, a triangle at each vertex of the base takes turns with one on each side.

The spoke to the vertex after `k` ends next to the vertex `k` of the rim, where the
antiprism has the vertex `k + n` of its lower ring below the vertex `k`.

## Main results

* `Mesh.runs_ambo_pyramid` — the faces of the ambo, by rim and spokes.
* `Mesh.ambo_pyramid` — the ambo of a pyramid is an antiprism.
-/

namespace Polyhedra

/-! ## Rim and spokes -/

/-- The middle of the edge of the base after vertex `k`. -/
def Site.rim (n k : Nat) : Site := middle k (next n k)

/-- The middle of the edge from vertex `k` of the base to the apex. -/
def Site.spoke (n k : Nat) : Site := middle k n

section Sites

variable {n j k : Nat}

theorem Site.rim_inj (hn : 3 ≤ n) (h : rim n j = rim n k) : j = k := by
  rcases middle_inj.1 h with ⟨heq, -⟩ | ⟨hj, hk⟩
  · exact heq
  · -- the same edge the other way round would go round the base in two steps
    have hback : next n (next n k) = k := by rw [← hj, hk]
    exact absurd hback (next_next_ne hn)

theorem Site.spoke_inj (hj : j < n) (h : spoke n j = spoke n k) : j = k := by
  rcases middle_inj.1 h with ⟨heq, -⟩ | ⟨heq, -⟩
  · exact heq
  · omega

theorem Site.rim_ne_spoke (hj : j < n) : rim n j ≠ spoke n k := by
  intro h
  have hlt := next_lt hj
  rcases middle_inj.1 h with ⟨-, heq⟩ | ⟨heq, -⟩ <;> omega

end Sites

/-- Where the vertices of the antiprism stand on the pyramid. -/
def Site.ofAntiprism (n v : Nat) : Site :=
  if v < n then rim n v else spoke n (next n (v - n))

/-- What the faces of the antiprism cover on the pyramid. -/
def Patch.ofAntiprism (n i : Nat) : Patch :=
  if i = 0 then .face 0
  else if i = 1 then .vertex n
  else if i % 2 = 0 then .vertex (next n (i / 2 - 1))
  else .face (i / 2)

section Places

variable {n i j k v w : Nat}

theorem Site.ofAntiprism_upper (hk : k < n) : ofAntiprism n k = rim n k := by
  rw [ofAntiprism, if_pos hk]

theorem Site.ofAntiprism_lower (n k : Nat) : ofAntiprism n (k + n) = spoke n (next n k) := by
  rw [ofAntiprism, if_neg (by omega), Nat.add_sub_cancel]

theorem Patch.ofAntiprism_up (n k : Nat) : ofAntiprism n (2 * k + 2) = .vertex (next n k) := by
  have hhalf : (2 * k + 2) / 2 - 1 = k := by omega
  rw [ofAntiprism, if_neg (by omega), if_neg (by omega), if_pos (by omega), hhalf]

theorem Patch.ofAntiprism_down (n k : Nat) : ofAntiprism n (2 * k + 3) = .face (k + 1) := by
  have hhalf : (2 * k + 3) / 2 = k + 1 := by omega
  rw [ofAntiprism, if_neg (by omega), if_neg (by omega), if_neg (by omega), hhalf]

/-- Different vertices stand at different sites. -/
theorem Site.ofAntiprism_inj (hn : 3 ≤ n) (hv : v < n + n)
    (h : ofAntiprism n v = ofAntiprism n w) : v = w := by
  unfold ofAntiprism at h
  by_cases hvn : v < n
  · by_cases hwn : w < n
    · rw [if_pos hvn, if_pos hwn] at h
      exact rim_inj hn h
    · rw [if_pos hvn, if_neg hwn] at h
      exact absurd h (rim_ne_spoke hvn)
  · by_cases hwn : w < n
    · rw [if_neg hvn, if_pos hwn] at h
      exact absurd h.symm (rim_ne_spoke hwn)
    · rw [if_neg hvn, if_neg hwn] at h
      have hplace := next_inj (spoke_inj (next_lt (by omega)) h)
      omega

/-- Different faces cover different patches. -/
theorem Patch.ofAntiprism_inj (hi : i < 2 * n + 2) (hj : j < 2 * n + 2)
    (h : ofAntiprism n i = ofAntiprism n j) : i = j := by
  have hilt : ¬ i = 0 → ¬ i = 1 → next n (i / 2 - 1) < n := fun _ _ => next_lt (by omega)
  have hjlt : ¬ j = 0 → ¬ j = 1 → next n (j / 2 - 1) < n := fun _ _ => next_lt (by omega)
  have hinj : next n (i / 2 - 1) = next n (j / 2 - 1) → i / 2 - 1 = j / 2 - 1 := next_inj
  unfold ofAntiprism at h
  split_ifs at h
  all_goals simp only [Patch.face.injEq, Patch.vertex.injEq] at h
  all_goals omega

end Places

namespace Mesh

variable {n i j k u v w : Nat} {p : Patch} {s t : Site}

/-! ## The pyramid -/

/-- A pyramid has corners on its base, and three on each side. -/
theorem corner_pyramid (hn : 3 ≤ n) : (pyramid n).net.Corner i u v w ↔
    (i = 0 ∧ w < n ∧ v = next n w ∧ u = next n v) ∨ ∃ k, k < n ∧ i = k + 1 ∧
      ((u = n ∧ v = k ∧ w = next n k) ∨ (u = k ∧ v = next n k ∧ w = n) ∨
        (u = next n k ∧ v = n ∧ w = k)) := by
  constructor
  · intro hc
    rcases runs_pyramid.1 hc.enters with ⟨hi, hv, hu⟩ | ⟨k, hk, hi, henters⟩
    · rcases runs_pyramid.1 hc.leaves with ⟨-, hw, hvw⟩ | ⟨l, -, hl, -⟩
      · exact .inl ⟨hi, hw, hvw, hu⟩
      · omega
    · rcases runs_pyramid.1 hc.leaves with ⟨hzero, -, -⟩ | ⟨l, hl, hil, hleaves⟩
      · omega
      · have hkl : l = k := by omega
        subst hkl
        have hlt := next_lt hl
        have hne : next n l ≠ l := next_ne (by omega)
        refine .inr ⟨l, hl, hi, ?_⟩
        rcases henters with ⟨hu, hv⟩ | ⟨hu, hv⟩ | ⟨hu, hv⟩
        · exact .inl ⟨hu, hv, by omega⟩
        · exact .inr (.inl ⟨hu, hv, by omega⟩)
        · exact .inr (.inr ⟨hu, hv, by omega⟩)
  · intro h
    rcases h with ⟨hi, hw, hv, hu⟩ | ⟨k, hk, hi, hcases⟩
    · have hlt : v < n := hv ▸ next_lt hw
      exact ⟨runs_pyramid.2 (.inl ⟨hi, hlt, hu⟩), runs_pyramid.2 (.inl ⟨hi, hw, hv⟩)⟩
    · exact ⟨runs_pyramid.2 (.inr ⟨k, hk, hi, by omega⟩),
        runs_pyramid.2 (.inr ⟨k, hk, hi, by omega⟩)⟩

/-- The corner of the base at the vertex behind side `k`. -/
theorem corner_base (hn : 3 ≤ n) (hk : k < n) :
    (pyramid n).net.Corner 0 (next n (next n k)) (next n k) k :=
  (corner_pyramid hn).2 (.inl ⟨rfl, hk, rfl, rfl⟩)

theorem corner_side (hn : 3 ≤ n) (hk : k < n) :
    (pyramid n).net.Corner (k + 1) n k (next n k) ∧
      (pyramid n).net.Corner (k + 1) k (next n k) n ∧
        (pyramid n).net.Corner (k + 1) (next n k) n k := by
  refine ⟨(corner_pyramid hn).2 (.inr ⟨k, hk, rfl, ?_⟩),
    (corner_pyramid hn).2 (.inr ⟨k, hk, rfl, ?_⟩),
    (corner_pyramid hn).2 (.inr ⟨k, hk, rfl, ?_⟩)⟩
  · exact .inl ⟨rfl, rfl, rfl⟩
  · exact .inr (.inl ⟨rfl, rfl, rfl⟩)
  · exact .inr (.inr ⟨rfl, rfl, rfl⟩)

/--
The ambo of a pyramid has a face along the rim, one along the spokes, a triangle at
each vertex of the base, and one on each side.
-/
theorem runs_ambo_pyramid (hn : 3 ≤ n) : (pyramid n).amboDesign.net.Runs p s t ↔
    (p = .face 0 ∧ ∃ k, k < n ∧ s = .rim n (next n k) ∧ t = .rim n k) ∨
      (p = .vertex n ∧ ∃ k, k < n ∧ s = .spoke n k ∧ t = .spoke n (next n k)) ∨
      (∃ k, k < n ∧ p = .vertex (next n k) ∧
        (s, t) ∈ cycleEdges [.rim n k, .rim n (next n k), .spoke n (next n k)]) ∨
      ∃ k, k < n ∧ p = .face (k + 1) ∧
        (s, t) ∈ cycleEdges [.rim n k, .spoke n (next n k), .spoke n k] := by
  have hback : ∀ k, Site.middle (next n k) k = .rim n k := fun k => Site.middle_comm _ _
  have houtward : ∀ k, Site.middle n k = .spoke n k := fun k => Site.middle_comm _ _
  rw [runs_ambo (simple_pyramid hn)]
  simp only [mem_cycleEdges_three]
  constructor
  · intro h
    obtain ⟨i, u, v, w, hc, hflag⟩ := h
    rcases (corner_pyramid hn).1 hc with ⟨hi, hw, hv, hu⟩ | ⟨k, hk, hi, hside⟩
    · subst hi hu hv
      rw [hback, hback] at hflag
      rcases hflag with ⟨hp, hs, ht⟩ | ⟨hp, hs, ht⟩
      · exact .inl ⟨hp, w, hw, hs, ht⟩
      · exact .inr (.inr (.inl ⟨w, hw, hp, .inr (.inl ⟨hs, ht⟩)⟩))
    · subst hi
      rcases hside with ⟨hu, hv, hw⟩ | ⟨hu, hv, hw⟩ | ⟨hu, hv, hw⟩
      · subst hu hv hw
        rw [houtward] at hflag
        rcases hflag with ⟨hp, hs, ht⟩ | ⟨hp, hs, ht⟩
        · exact .inr (.inr (.inr ⟨v, hk, hp, .inl ⟨hs, ht⟩⟩))
        · obtain ⟨j, hj, hjv⟩ := exists_next_eq hk
          subst hjv
          exact .inr (.inr (.inl ⟨j, hj, hp, .inr (.inr ⟨hs, ht⟩)⟩))
      · subst hu hv hw
        rcases hflag with ⟨hp, hs, ht⟩ | ⟨hp, hs, ht⟩
        · exact .inr (.inr (.inr ⟨u, hk, hp, .inr (.inl ⟨hs, ht⟩)⟩))
        · exact .inr (.inr (.inl ⟨u, hk, hp, .inl ⟨hs, ht⟩⟩))
      · subst hu hv hw
        rw [houtward] at hflag
        rcases hflag with ⟨hp, hs, ht⟩ | ⟨hp, hs, ht⟩
        · exact .inr (.inr (.inr ⟨w, hk, hp, .inr (.inr ⟨hs, ht⟩)⟩))
        · exact .inr (.inl ⟨hp, w, hk, hs, ht⟩)
  · intro h
    rcases h with ⟨hp, k, hk, hs, ht⟩ | ⟨hp, k, hk, hs, ht⟩ | ⟨k, hk, hp, hst⟩ | ⟨k, hk, hp, hst⟩
    · refine ⟨0, _, _, _, corner_base hn hk, .inl ⟨hp, ?_, ?_⟩⟩
      · rw [hs, hback]
      · rw [ht, hback]
    · refine ⟨k + 1, _, _, _, (corner_side hn hk).2.2, .inr ⟨hp, ?_, ht⟩⟩
      rw [hs, houtward]
    · rcases hst with ⟨hs, ht⟩ | ⟨hs, ht⟩ | ⟨hs, ht⟩
      · exact ⟨k + 1, _, _, _, (corner_side hn hk).2.1, .inr ⟨hp, hs, ht⟩⟩
      · refine ⟨0, _, _, _, corner_base hn hk, .inr ⟨hp, ?_, ?_⟩⟩
        · rw [hs, hback]
        · rw [ht, hback]
      · refine ⟨next n k + 1, _, _, _, (corner_side hn (next_lt hk)).1, .inr ⟨hp, hs, ?_⟩⟩
        rw [ht, houtward]
    · rcases hst with ⟨hs, ht⟩ | ⟨hs, ht⟩ | ⟨hs, ht⟩
      · refine ⟨k + 1, _, _, _, (corner_side hn hk).1, .inl ⟨hp, ?_, ht⟩⟩
        rw [hs, houtward]
      · exact ⟨k + 1, _, _, _, (corner_side hn hk).2.1, .inl ⟨hp, hs, ht⟩⟩
      · refine ⟨k + 1, _, _, _, (corner_side hn hk).2.2, .inl ⟨hp, hs, ?_⟩⟩
        rw [ht, houtward]

/-! ## The antiprism -/

/-- The triangles of the antiprism stand on those of the ambo. -/
theorem map_antiprismUp (hk : k < n) : (antiprismUp n k).map (Site.ofAntiprism n) =
    [.rim n k, .rim n (next n k), .spoke n (next n k)] := by
  have hupper := Site.ofAntiprism_upper hk
  have hnext := Site.ofAntiprism_upper (next_lt hk)
  have hlower := Site.ofAntiprism_lower n k
  simp [antiprismUp, hupper, hnext, hlower]

theorem map_antiprismDown (hk : k < n) : (antiprismDown n k).map (Site.ofAntiprism n) =
    [.rim n (next n k), .spoke n (next n (next n k)), .spoke n (next n k)] := by
  have hupper := Site.ofAntiprism_upper (next_lt hk)
  have hlower := Site.ofAntiprism_lower n k
  have hnext := Site.ofAntiprism_lower n (next n k)
  simp [antiprismDown, hupper, hlower, hnext]

/-- The faces of an antiprism run round its polygons and its triangles. -/
theorem runs_antiprism_cycles : (antiprism n).net.Runs i v w ↔
    (i = 0 ∧ w < n ∧ v = next n w) ∨ (i = 1 ∧ ∃ k, k < n ∧ v = k + n ∧ w = next n k + n) ∨
      (∃ k, k < n ∧ i = 2 * k + 2 ∧ (v, w) ∈ cycleEdges (antiprismUp n k)) ∨
      ∃ k, k < n ∧ i = 2 * next n k + 3 ∧ (v, w) ∈ cycleEdges (antiprismDown n k) := by
  simp only [antiprismUp, antiprismDown, mem_cycleEdges_three]
  exact runs_antiprism

/-- The ambo of the pyramid is the antiprism, face by face. -/
theorem renames_antiprism (hn : 3 ≤ n) : (antiprism n).net.Renames (pyramid n).amboDesign.net
    (Site.ofAntiprism n) (Patch.ofAntiprism n) := by
  have hnet := (surface_iff.1 (spherical_antiprism hn).toSurface).2
  have hambo := surface_ambo (spherical_pyramid hn).toSurface
  refine .of_runs hnet hambo (fun p s t => ?_) (fun i j v w hv _ heq => ?_)
    fun i j v w hi hj heq => ?_
  · rw [runs_ambo_pyramid hn]
    constructor
    · intro h
      rcases h with ⟨hp, k, hk, hs, ht⟩ | ⟨hp, k, hk, hs, ht⟩ | ⟨k, hk, hp, hst⟩ | ⟨k, hk, hp, hst⟩
      · refine ⟨0, next n k, k, runs_antiprism_cycles.2 (.inl ⟨rfl, hk, rfl⟩), hp.symm, ?_, ?_⟩
        · rw [hs, Site.ofAntiprism_upper (next_lt hk)]
        · rw [ht, Site.ofAntiprism_upper hk]
      · obtain ⟨j, hj, hjk⟩ := exists_next_eq hk
        refine ⟨1, j + n, next n j + n,
          runs_antiprism_cycles.2 (.inr (.inl ⟨rfl, j, hj, rfl, rfl⟩)), hp.symm, ?_, ?_⟩
        · rw [hs, Site.ofAntiprism_lower, hjk]
        · rw [ht, Site.ofAntiprism_lower, hjk]
      · rw [← map_antiprismUp hk] at hst
        obtain ⟨v, w, hvw, hs, ht⟩ := mem_cycleEdges_map.1 hst
        refine ⟨2 * k + 2, v, w, runs_antiprism_cycles.2 (.inr (.inr (.inl ⟨k, hk, rfl, hvw⟩))), ?_,
          hs, ht⟩
        rw [hp, Patch.ofAntiprism_up]
      · obtain ⟨j, hj, hjk⟩ := exists_next_eq hk
        subst hjk
        rw [← map_antiprismDown hj] at hst
        obtain ⟨v, w, hvw, hs, ht⟩ := mem_cycleEdges_map.1 hst
        refine ⟨2 * next n j + 3, v, w,
          runs_antiprism_cycles.2 (.inr (.inr (.inr ⟨j, hj, rfl, hvw⟩))), ?_, hs, ht⟩
        rw [hp, Patch.ofAntiprism_down]
    · intro h
      obtain ⟨i, v, w, hr, hp, hs, ht⟩ := h
      subst hp hs ht
      rcases runs_antiprism_cycles.1 hr with ⟨hi, hw, hv⟩ | ⟨hi, k, hk, hv, hw⟩ |
        ⟨k, hk, hi, hvw⟩ | ⟨k, hk, hi, hvw⟩
      · subst hi hv
        rw [Site.ofAntiprism_upper (next_lt hw), Site.ofAntiprism_upper hw]
        exact .inl ⟨rfl, w, hw, rfl, rfl⟩
      · subst hi hv hw
        rw [Site.ofAntiprism_lower, Site.ofAntiprism_lower]
        exact .inr (.inl ⟨rfl, next n k, next_lt hk, rfl, rfl⟩)
      · subst hi
        rw [Patch.ofAntiprism_up]
        refine .inr (.inr (.inl ⟨k, hk, rfl, ?_⟩))
        rw [← map_antiprismUp hk]
        exact mem_cycleEdges_map.2 ⟨v, w, hvw, rfl, rfl⟩
      · subst hi
        rw [Patch.ofAntiprism_down]
        refine .inr (.inr (.inr ⟨next n k, next_lt hk, rfl, ?_⟩))
        rw [← map_antiprismDown hk]
        exact mem_cycleEdges_map.2 ⟨v, w, hvw, rfl, rfl⟩
  · obtain ⟨x, hx⟩ := hv
    have hlt : v < (antiprism n).vertexCount := hnet.isVertex i v x hx
    rw [vertexCount_antiprism] at hlt
    exact Site.ofAntiprism_inj hn hlt heq
  · obtain ⟨x, hx⟩ := hi
    obtain ⟨y, hy⟩ := hj
    have hilt := lt_faceCount_of_runs hx
    have hjlt := lt_faceCount_of_runs hy
    rw [faceCount_antiprism] at hilt hjlt
    exact Patch.ofAntiprism_inj hilt hjlt heq

/-! ## The ambo of a pyramid -/

theorem sizeFault?_ambo_pyramid (hn : 3 ≤ n) :
    (pyramid n).amboDesign.sizeFault? = oversize? (2 * n) (2 * n + 2) := by
  have hpyramid := spherical_pyramid hn
  have hedges : (pyramid n).edges.length = 2 * n := by
    have hformula := hpyramid.euler_formula
    rw [vertexCount_pyramid, faceCount_pyramid] at hformula
    omega
  have hfaces : n + 1 + (n + 1) = 2 * n + 2 := by omega
  rw [sizeFault?_amboDesign hpyramid.toSurface, hedges, vertexCount_pyramid, faceCount_pyramid,
    hfaces]

/--
The ambo of a pyramid is built if the antiprism over the same polygon is not too large,
and it is that antiprism: the same oriented surface, but for the numbers of vertices and
faces.
-/
theorem ambo_pyramid (hn : 3 ≤ n) :
    (∀ e, oversize? (2 * n) (2 * n + 2) = some e → (pyramid n).ambo.outcome = .error e) ∧
      (oversize? (2 * n) (2 * n + 2) = none →
        ∃ a, (pyramid n).ambo.outcome = .ok a ∧ a.Isomorphic (antiprism n)) := by
  have hpyramid := (spherical_pyramid hn).toPolyhedral
  have hantiprism := (spherical_antiprism hn).toPolyhedral
  rw [← sizeFault?_ambo_pyramid hn]
  refine ⟨fun e hsize => hpyramid.toProper.ambo_eq_error hsize, fun hsize => ?_⟩
  obtain ⟨a, ha, hpoly, hnet⟩ := hpyramid.exists_ambo hsize
  have hforth : (antiprism n).net.Isomorphic a.net :=
    Net.Isomorphic.trans ⟨_, _, renames_antiprism hn⟩ hnet
  refine ⟨a, ha, (isomorphic_iff_net hpoly.toSurface hantiprism.toSurface).2 ?_⟩
  exact hforth.symm (surface_iff.1 hantiprism.toSurface).2

/-- Over a triangle all sides of the pyramid touch one another. -/
theorem ambo_pyramid_three :
    3 ≤ 3 ∧ ∃ a, (pyramid 3).ambo.outcome = .ok a ∧ a.Isomorphic (antiprism 3) :=
  ⟨by decide, (ambo_pyramid (by decide)).2 (by decide)⟩

/-- A pyramid with more edges than a solid may have vertices. -/
theorem ambo_pyramid_outgrows :
    3 ≤ 5000001 ∧
      (pyramid 5000001).ambo.outcome = .error (.tooManyVertices 10000002 maxVertices) := by
  have hpyramid : (pyramid 5000001).Spherical := spherical_pyramid (by decide)
  refine ⟨by decide, hpyramid.toProper.ambo_eq_error ?_⟩
  rw [sizeFault?_ambo_pyramid (by decide)]
  exact oversize?_of_vertices (by decide)

end Mesh

end Polyhedra
