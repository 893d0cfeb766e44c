import Mathlib.Data.List.Perm.Subperm
import Roadworks.Proofs.Exact.Drawing
import Roadworks.Proofs.Network.Components
/-! # Components of a drawing

Two nodes lie in one component when lines lead from one position to the other. Components are
counted by their lowest nodes, so it is enough to map them to components of another network. -/

namespace Roadworks

open Relation

/-- Leaders that are mapped to different sets are no more than the leaders there. -/
theorem DisjointSet.length_leaders_le_of_map {s t : DisjointSet} {n m : Nat} {f : Nat → Nat}
    (hlt : ∀ i < n, f i < m)
    (hroot : ∀ i < n, ∀ j < n, t.root (f i) = t.root (f j) → s.root i = s.root j) :
    (s.leaders n).length ≤ (t.leaders m).length := by
  have hnodup : ((s.leaders n).map fun i => t.root (f i)).Nodup := by
    rw [List.Nodup, List.pairwise_map]
    refine (s.nodup_leaders n).imp_of_mem ?_
    intro i j hi hj hne heq
    rcases mem_leaders_iff.mp hi with ⟨hin, hri⟩
    rcases mem_leaders_iff.mp hj with ⟨hjn, hrj⟩
    apply hne
    rw [← hri, ← hrj]
    exact hroot i hin j hjn heq
  have hsub : ((s.leaders n).map fun i => t.root (f i)) ⊆ t.leaders m := by
    intro r hr
    rcases List.mem_map.mp hr with ⟨i, hi, rfl⟩
    exact t.root_mem_leaders (hlt i (mem_leaders_iff.mp hi).1)
  simpa using (List.subperm_of_subset hnodup hsub).length_le

namespace Network

variable {n : Network ℝ}

theorem IsDrawing.exists_edge (h : n.IsDrawing) {i j : Nat} (hi : i < n.nodes.length)
    (hj : j < n.nodes.length) (hline : s(n.positionAt i, n.positionAt j) ∈ n.lines) :
    ∃ e ∈ n.edges, e.ends = s(i, j) := by
  rcases List.mem_map.mp hline with ⟨e, he, hends⟩
  rcases h.joinsNodes e he with ⟨htail, hhead, _⟩
  refine ⟨e, he, ?_⟩
  simpa only [Edge.ends, Sym2.map_mk, Sym2.eq_iff, h.positionAt_inj htail hi,
    h.positionAt_inj htail hj, h.positionAt_inj hhead hi, h.positionAt_inj hhead hj] using hends

/-- Nodes are joined when a chain of lines leads from one position to the other. -/
theorem IsDrawing.root_joined_eq_iff (h : n.IsDrawing) {i j : Nat} (hi : i < n.nodes.length)
    (hj : j < n.nodes.length) :
    n.joined.root i = n.joined.root j ↔
      EqvGen (fun x y => s(x, y) ∈ n.lines) (n.positionAt i) (n.positionAt j) := by
  rw [joined, DisjointSet.root_joinAll_snd_eq_iff h.joinsNodes.covers]
  refine eqvGen_iff_of_getElem? ?_ ?_ ?_ ?_ (getElem?_positions hi) (getElem?_positions hj)
  · rintro i j (hroot | hpair)
    · rw [DisjointSet.root_new, DisjointSet.root_new] at hroot
      rw [hroot]
    · have hbound := h.joinsNodes.covers _ hpair
      simp only [DisjointSet.new, Array.size_range] at hbound
      rw [List.length_map]
      exact iff_of_true hbound.1 hbound.2
  · intro x y hline
    exact iff_of_true (h.mem_positions_iff.mpr ⟨_, hline, Sym2.mem_mk_left x y⟩)
      (h.mem_positions_iff.mpr ⟨_, hline, Sym2.mem_mk_right x y⟩)
  · rintro i j x y hx hy (hroot | hpair)
    · rw [DisjointSet.root_new, DisjointSet.root_new] at hroot
      subst hroot
      obtain rfl := Option.some.inj (hx.symm.trans hy)
      exact .refl x
    · rcases List.mem_map.mp hpair with ⟨e, he, heq⟩
      rcases Prod.mk.inj heq with ⟨rfl, rfl⟩
      rcases h.joinsNodes e he with ⟨htail, hhead, _⟩
      obtain rfl := Option.some.inj (hx.symm.trans (getElem?_positions htail))
      obtain rfl := Option.some.inj (hy.symm.trans (getElem?_positions hhead))
      exact .rel _ _ (List.mem_map.mpr ⟨e, he, rfl⟩)
  · intro i j x y hx hy hxy
    have hi : i < n.nodes.length := by simpa using (List.getElem?_eq_some_iff.mp hx).1
    have hj : j < n.nodes.length := by simpa using (List.getElem?_eq_some_iff.mp hy).1
    obtain rfl := Option.some.inj (hx.symm.trans (getElem?_positions hi))
    obtain rfl := Option.some.inj (hy.symm.trans (getElem?_positions hj))
    rcases hxy with hline | heq
    · rcases h.exists_edge hi hj hline with ⟨e, he, hends⟩
      have hpair : (e.tail, e.head) ∈ n.edges.map fun e => (e.tail, e.head) :=
        List.mem_map.mpr ⟨e, he, rfl⟩
      rcases Sym2.eq_iff.mp hends with ⟨rfl, rfl⟩ | ⟨rfl, rfl⟩
      · exact .rel _ _ (.inr hpair)
      · exact .symm _ _ (.rel _ _ (.inr hpair))
    · rw [(h.positionAt_inj hi hj).mp heq]
      exact .refl j

end Network

end Roadworks
