import Polyhedra.Proofs.Surface.Assembly
import Mathlib.Data.Set.Function

/-!
# Designs

What the designs of the operators have in common.  Their flags are laid out
corner by corner, so that a flag of the design is a flag of some corner of the
net, and the sites that they declare are named by vertices, faces and directed
edges of the old mesh.

## Main results

* `Mesh.mem_cornerFlags` — the flags of a design are those of the corners.
* `Mesh.nodup_cornerFlags` — no edge occurs twice if it tells its corner.
* `Mesh.InRange.danglingVertex?_eq_none` — every corner has a position.
-/

namespace Polyhedra

theorem Site.middle_comm (v w : Nat) : middle v w = middle w v := by
  simp [middle, Nat.min_comm, Nat.max_comm]

/-- The middle of an edge tells the edge, but not its direction. -/
theorem Site.middle_inj {u v x y : Nat} :
    middle u v = middle x y ↔ (u = x ∧ v = y) ∨ (u = y ∧ v = x) := by
  simp only [middle, Site.edge.injEq]
  omega

/-- At one of its ends an edge is told by its middle. -/
theorem Site.middle_left_cancel {u v w : Nat} (h : middle u v = middle u w) : v = w := by
  rcases middle_inj.1 h with ⟨-, hsame⟩ | ⟨huw, hvu⟩
  · exact hsame
  · exact hvu.trans huw

namespace Mesh

variable {m : Mesh}

/-! ## Flags at corners -/

/-- The flags that a design lays out at the corners of all faces. -/
def cornerFlags (m : Mesh) (flags : Nat → Nat → Nat → Nat → List (Flag Site Patch)) :
    List (Flag Site Patch) :=
  m.cornersWithFace.flatMap fun (i, u, v, w) => flags i u v w

section CornerFlags

variable {flags : Nat → Nat → Nat → Nat → List (Flag Site Patch)}

theorem length_cornerFlags {n : Nat} (h : ∀ i u v w, (flags i u v w).length = n) :
    (m.cornerFlags flags).length = n * m.directedEdges.length := by
  rw [cornerFlags, List.length_flatMap, ← length_cornersWithFace, Nat.mul_comm]
  simp [h]

variable (hsimple : ∀ f ∈ m.faces, f.Simple)
include hsimple

theorem mem_cornerFlags {flag : Flag Site Patch} :
    flag ∈ m.cornerFlags flags ↔ ∃ i u v w, m.net.Corner i u v w ∧ flag ∈ flags i u v w := by
  rw [cornerFlags, List.mem_flatMap]
  constructor
  · rintro ⟨⟨i, u, v, w⟩, hcorner, hflag⟩
    exact ⟨i, u, v, w, (mem_cornersWithFace hsimple).1 hcorner, hflag⟩
  · rintro ⟨i, u, v, w, hcorner, hflag⟩
    exact ⟨(i, u, v, w), (mem_cornersWithFace hsimple).2 hcorner, hflag⟩

/-- No edge occurs twice if none does at a corner and each edge tells its corner. -/
theorem nodup_cornerFlags
    (hself : ∀ i u v w, m.net.Corner i u v w → ((flags i u v w).map Flag.edge).Nodup)
    (hapart : ∀ i u v w j x y z e, m.net.Corner i u v w → m.net.Corner j x y z →
      e ∈ (flags i u v w).map Flag.edge → e ∈ (flags j x y z).map Flag.edge →
      i = j ∧ u = x ∧ v = y ∧ w = z) :
    ((m.cornerFlags flags).map Flag.edge).Nodup := by
  rw [cornerFlags, List.map_flatMap, List.nodup_flatMap]
  constructor
  · rintro ⟨i, u, v, w⟩ hc
    exact hself i u v w ((mem_cornersWithFace hsimple).1 hc)
  · refine List.Pairwise.imp_of_mem ?_ (nodup_cornersWithFace hsimple)
    rintro ⟨i, u, v, w⟩ ⟨j, x, y, z⟩ hc hc' hne e he he'
    obtain ⟨rfl, rfl, rfl, rfl⟩ := hapart i u v w j x y z e ((mem_cornersWithFace hsimple).1 hc)
      ((mem_cornersWithFace hsimple).1 hc') he he'
    exact hne rfl

end CornerFlags

/-! ## Declared sites -/

theorem keys_vertexSites (place : Point → Point) :
    (m.vertexSites place).map Prod.fst = (List.range m.vertexCount).map Site.vertex := by
  have hplaces : m.vertices.toList.zipIdx.map Prod.snd = List.range m.vertexCount := by
    rw [List.zipIdx_map_snd, List.range_eq_range']
    rfl
  rw [← hplaces, vertexSites, List.map_map, List.map_map]
  rfl

theorem keys_centerSites (place : Point → Point) :
    (m.centerSites place).map Prod.fst = (List.range m.faceCount).map Site.center := by
  have hplaces : m.faceCenters.zipIdx.map Prod.snd = List.range m.faceCount := by
    rw [List.zipIdx_map_snd, List.range_eq_range', faceCenters, List.length_map]
    rfl
  rw [← hplaces, centerSites, List.map_map, List.map_map]
  rfl

theorem keys_interiorSites :
    m.interiorSites.map Prod.fst =
      m.cornersWithFace.map fun (_, u, v, _) => Site.edge u v := by
  rw [interiorSites, List.map_map]
  rfl

section Proper

variable (h : m.Proper)
include h

theorem mem_keys_interiorSites {s : Site} :
    s ∈ m.interiorSites.map Prod.fst ↔ ∃ i u v, m.net.Runs i u v ∧ s = .edge u v := by
  rw [keys_interiorSites, List.mem_map]
  constructor
  · rintro ⟨⟨i, u, v, w⟩, hc, rfl⟩
    exact ⟨i, u, v, ((mem_cornersWithFace h.simple).1 hc).enters, rfl⟩
  · rintro ⟨i, u, v, hr, rfl⟩
    obtain ⟨w, hc⟩ := h.ringed.exists_leaves hr
    exact ⟨(i, u, v, w), (mem_cornersWithFace h.simple).2 hc, rfl⟩

/-- There is one interior site for each directed edge. -/
theorem bijOn_interiorSites :
    Set.BijOn (fun e => Site.edge e.1 e.2) { e | e ∈ m.directedEdges }
      { s | s ∈ m.interiorSites.map Prod.fst } := by
  refine ⟨fun e he => ?_, fun e _ e' _ heq => ?_, fun s hs => ?_⟩
  · obtain ⟨i, hr⟩ := mem_directedEdges.1 he
    exact (mem_keys_interiorSites h).2 ⟨i, e.1, e.2, hr, rfl⟩
  · obtain ⟨hfst, hsnd⟩ := Site.edge.inj heq
    exact Prod.ext hfst hsnd
  · obtain ⟨i, u, v, hr, rfl⟩ := (mem_keys_interiorSites h).1 hs
    exact ⟨(u, v), mem_directedEdges.2 ⟨i, hr⟩, rfl⟩

end Proper

section Surface

variable (h : m.Surface)
include h

theorem nodup_keys_interiorSites : (m.interiorSites.map Prod.fst).Nodup := by
  obtain ⟨hsimple, hnet⟩ := surface_iff.1 h
  rw [keys_interiorSites]
  refine (nodup_cornersWithFace hsimple).map_on ?_
  rintro ⟨i, u, v, w⟩ hc ⟨j, x, y, z⟩ hc' heq
  obtain ⟨rfl, rfl⟩ := Site.edge.inj heq
  obtain ⟨rfl, rfl⟩ := ((mem_cornersWithFace hsimple).1 hc).eq_of_enters hnet
    ((mem_cornersWithFace hsimple).1 hc')
  rfl

/-- A face runs along some edge. -/
theorem exists_runs {i : Nat} (hi : i < m.faceCount) : ∃ u v, m.net.Runs i u v := by
  have hf := List.getElem?_eq_getElem hi
  exact (ring_net hf (h.simple _ (List.mem_of_getElem? hf))).exists_touches

end Surface

theorem lt_faceCount_of_runs {i u v : Nat} (h : m.net.Runs i u v) : i < m.faceCount := by
  obtain ⟨f, hf, -⟩ := h
  exact (List.getElem?_eq_some_iff.1 hf).1

/-! ## Positions -/

theorem InRange.danglingVertex?_eq_none (h : m.InRange) : m.danglingVertex? = none := by
  rw [danglingVertex?, List.findSome?_eq_none_iff]
  intro f hf
  rw [List.find?_eq_none]
  intro v hv
  simpa using h f hf v hv

theorem InRange.requirePositions_eq_ok {α : Type} (h : m.InRange) (a : α) :
    m.requirePositions a = .ok a := by
  rw [requirePositions, h.danglingVertex?_eq_none]

/-! ## Sizes -/

/-- A design that is too large is not built. -/
theorem build_eq_error {operator : Text} {design : Design} {e : MeshError}
    (hsize : design.sizeFault? = some e) : m.build operator design = .error e :=
  Blueprint.assemble_eq_error_of_sizeFault? hsize _

end Mesh

end Polyhedra
