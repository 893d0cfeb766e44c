import Mathlib.Data.List.Induction
import Mathlib.Data.List.TakeDrop
import Mathlib.Order.Lattice
import Roadworks.Proofs.Cluster.Numbering
/-! # The passes of clustering

Passes over the centroids go on until one of them joins nothing. Every pass before that one leaves
fewer sets, so there are no more passes than points, whatever the arithmetic returns. -/

namespace Roadworks

variable {α : Type} [Scalar α]

namespace Clustering

variable {tolerance : α} {points : List (Vec α)} {s : DisjointSet} {trace : List DisjointSet}

/-! ## Passes until one joins nothing -/

/-- The forests at which the passes begin, in order. A pass that joins sets is followed by another
one, and a pass that joins none is the last. -/
inductive Passes (tolerance : α) (points : List (Vec α)) :
    DisjointSet → List DisjointSet → Prop where
  | last {s : DisjointSet} : (s.joinAll (mergers tolerance points s)).1 = false →
      Passes tolerance points s [s]
  | more {s : DisjointSet} {trace : List DisjointSet} :
      (s.joinAll (mergers tolerance points s)).1 = true →
      Passes tolerance points (s.joinAll (mergers tolerance points s)).2 trace →
      Passes tolerance points s (s :: trace)

theorem size_joinAll_mergers (hsize : s.parents.size = points.length) :
    (s.joinAll (mergers tolerance points s)).2.parents.size = points.length := by
  rw [DisjointSet.size_joinAll_snd, hsize]

/-- A pass that joins sets leaves one. -/
theorem length_leaders_joinAll_mergers_pos (hsize : s.parents.size = points.length)
    (h : (s.joinAll (mergers tolerance points s)).1 = true) :
    0 < ((s.joinAll (mergers tolerance points s)).2.leaders points.length).length := by
  obtain ⟨⟨a, b⟩, rest, hpairs⟩ :=
    List.exists_cons_of_ne_nil ((joinAll_mergers_fst_iff hsize tolerance).mp h)
  have hpair : (a, b) ∈ mergers tolerance points s := hpairs ▸ List.mem_cons_self
  have ha := (DisjointSet.mem_leaders_iff.mp (mem_mergers_iff.mp hpair).1).1
  exact List.length_pos_of_mem (DisjointSet.root_mem_leaders _ ha)

/-- The loop ends: what every pass but the last leaves has fewer sets. -/
theorem exists_passes (tolerance : α) (hsize : s.parents.size = points.length) :
    ∃ trace, Passes tolerance points s trace := by
  induction hsets : (s.leaders points.length).length using Nat.strongRecOn generalizing s with
  | ind sets ih =>
      cases hjoin : (s.joinAll (mergers tolerance points s)).1 with
      | false => exact ⟨_, .last hjoin⟩
      | true =>
          have hless := length_leaders_joinAll_mergers_lt hsize hjoin
          obtain ⟨trace, htrace⟩ := ih _ (hsets ▸ hless) (size_joinAll_mergers hsize) rfl
          exact ⟨_, .more hjoin htrace⟩

/-- No pass begins with more sets than the first one. -/
theorem Passes.length_leaders_le (h : Passes tolerance points s trace)
    (hsize : s.parents.size = points.length) :
    ∀ t ∈ trace, (t.leaders points.length).length ≤ (s.leaders points.length).length := by
  induction h with
  | last _ => simp
  | more hjoin _ ih =>
      have hless := length_leaders_joinAll_mergers_lt hsize hjoin
      refine List.forall_mem_cons.mpr ⟨le_rfl, fun t ht => ?_⟩
      exact (ih (size_joinAll_mergers hsize) t ht).trans hless.le

/-- Every pass begins with fewer sets than all passes before it. -/
theorem Passes.pairwise (h : Passes tolerance points s trace)
    (hsize : s.parents.size = points.length) :
    trace.Pairwise fun s t =>
      (t.leaders points.length).length < (s.leaders points.length).length := by
  induction h with
  | last _ => exact List.pairwise_singleton _ _
  | more hjoin hrest ih =>
      have hless := length_leaders_joinAll_mergers_lt hsize hjoin
      refine List.pairwise_cons.mpr ⟨fun t ht => ?_, ih (size_joinAll_mergers hsize)⟩
      exact (hrest.length_leaders_le (size_joinAll_mergers hsize) t ht).trans_lt hless

/-- There are no more passes than sets, except for the one pass over no set. -/
theorem Passes.length_le (h : Passes tolerance points s trace)
    (hsize : s.parents.size = points.length) :
    trace.length ≤ max 1 (s.leaders points.length).length := by
  induction h with
  | last _ => exact le_max_left _ _
  | more hjoin _ ih =>
      have hless := length_leaders_joinAll_mergers_lt hsize hjoin
      have hpos := length_leaders_joinAll_mergers_pos hsize hjoin
      have hrest := ih (size_joinAll_mergers hsize)
      rw [List.length_cons]
      omega

/-- Merging with enough fuel returns the clusters of the last pass. -/
theorem Passes.settle_eq (h : Passes tolerance points s trace) {fuel : Nat}
    (hfuel : trace.length ≤ fuel) :
    trace.getLast?.map (ofSets · points) = some (settle fuel tolerance points s) := by
  induction h generalizing fuel with
  | @last s hjoin =>
      obtain ⟨fuel, rfl⟩ := Nat.exists_eq_add_of_le' hfuel
      rw [List.length_singleton, settle_succ]
      cases hpass : s.joinAll (mergers tolerance points s) with
      | mk changed joined =>
          rw [hpass] at hjoin
          subst hjoin
          rfl
  | @more s trace hjoin hrest ih =>
      obtain ⟨fuel, rfl⟩ := Nat.exists_eq_add_of_le' ((Nat.le_add_left 1 _).trans hfuel)
      have hne : trace ≠ [] := by
        cases hrest <;> exact List.cons_ne_nil _ _
      have hlast := ih (Nat.le_of_succ_le_succ hfuel)
      rw [List.getLast?_cons_of_ne_nil hne, hlast, settle_succ]
      cases hpass : s.joinAll (mergers tolerance points s) with
      | mk changed joined =>
          rw [hpass] at hjoin
          subst hjoin
          rfl

/-! ## The clusters in the end -/

/-- Every point has a cluster, and clusters are numbered as they turn up: the first one is zero, and
each is at most one more than the largest before it. Every cluster has a point, and it lies at the
sum of its points, taken in order from zero, divided by their number. -/
structure IsWellFormed (c : Clustering α) (points : List (Vec α)) : Prop where
  length_assignment : c.assignment.length = points.length
  head_eq : ∀ k, c.assignment[0]? = some k → k = 0
  le_succ : ∀ i k, 0 < i → c.assignment[i]? = some k → ∃ j ∈ c.assignment.take i, k ≤ j + 1
  mem_assignment_iff : ∀ k, k ∈ c.assignment ↔ k < c.centroids.length
  centroid_eq : ∀ k < c.centroids.length, c.centroids[k]? =
    some (((members c.assignment points k).foldl (· + ·) .zero : Vec α) /
      (Nat.cast (members c.assignment points k).length : α))

/-- A cluster turns up after all clusters with lower numbers. -/
theorem Numbered.mem_take {c : Clustering α} (h : c.Numbered points) {i j k : Nat}
    (hk : c.assignment[i]? = some k) (hjk : j < k) : j ∈ c.assignment.take i := by
  have hlt := h.lt_length k (List.mem_of_getElem? hk)
  have hfirst := h.first_lt_first j k hjk hlt
  have hle : c.assignment.idxOf k ≤ i := by
    obtain ⟨hi, hget⟩ := List.getElem?_eq_some_iff.mp hk
    by_contra hlt
    simpa [hget] using List.not_of_lt_findIdx (Nat.not_le.mp hlt)
  rw [List.mem_take_iff_idxOf_lt (h.exists_point j (hjk.trans hlt))]
  exact hfirst.trans_le hle

theorem Numbered.isWellFormed {c : Clustering α} (h : c.Numbered points) :
    c.IsWellFormed points where
  length_assignment := h.length_assignment
  head_eq k hk := by
    by_contra hne
    simpa using h.mem_take hk (Nat.pos_of_ne_zero hne)
  le_succ i k hi hk := by
    cases k with
    | zero =>
        have hlength : 0 < c.assignment.length :=
          hi.trans (List.getElem?_eq_some_iff.mp hk).1
        obtain ⟨j, hj⟩ := List.exists_mem_of_length_pos
          (l := c.assignment.take i) (by rw [List.length_take]; omega)
        exact ⟨j, hj, Nat.zero_le _⟩
    | succ k => exact ⟨k, h.mem_take hk (Nat.lt_succ_self k), le_rfl⟩
  mem_assignment_iff k := ⟨h.lt_length k, h.exists_point k⟩
  centroid_eq := h.centroid_eq

end Clustering

/-! ## The grid of a pass -/

namespace Grid

/-- The grid that a search has when it comes to point `k`: it holds the points before that one. -/
def upTo (tolerance : α) (points : List (Vec α)) (k : Nat) : Grid α :=
  (points.take k).zipIdx.foldl (fun g (p, i) => g.insert i p) (.empty tolerance)

theorem upTo_eq_ofPoints (tolerance : α) (points : List (Vec α)) (k : Nat) :
    upTo tolerance points k = ofPoints tolerance (points.take k) := by
  rw [upTo]
  generalize points.take k = before
  induction before using List.reverseRecOn with
  | nil => rfl
  | append_singleton before p ih =>
      rw [List.zipIdx_append, List.foldl_append, ih, ← insert_ofPoints, Nat.zero_add]
      rfl

end Grid

open Clustering in
/-- Clustering ends after at most as many passes as there are points, or after one, and each pass
begins with fewer sets than the one before. Its result is well formed, and the last pass finds no
earlier centroid among the candidates of a later one within the tolerance. -/
theorem clusterPoints_settles (tolerance : α) (points : List (Vec α)) :
    (∃ trace, Passes tolerance points (firstSets tolerance points) trace ∧
      trace.length ≤ max 1 points.length ∧
      (trace.Pairwise fun s t =>
        (t.leaders points.length).length < (s.leaders points.length).length) ∧
      trace.getLast?.map (ofSets · points) = some (clusterPoints tolerance points)) ∧
    (clusterPoints tolerance points).IsWellFormed points ∧
    ∀ j k p q, j < k → (clusterPoints tolerance points).centroids[k]? = some p →
      (clusterPoints tolerance points).centroids[j]? = some q →
      j ∈ (Grid.upTo tolerance (clusterPoints tolerance points).centroids k).candidates p →
      ¬ q.dist p ≤ tolerance := by
  have hsize := size_firstSets tolerance points
  obtain ⟨trace, htrace⟩ := exists_passes tolerance hsize
  have hlength : trace.length ≤ max 1 points.length :=
    (htrace.length_le hsize).trans (sup_le_sup_left (length_leaders_le _ _) 1)
  have hfuel : trace.length ≤ points.length + 1 := by omega
  refine ⟨⟨trace, htrace, hlength, htrace.pairwise hsize, ?_⟩,
    (numbered_clusterPoints tolerance points).isWellFormed, ?_⟩
  · rw [htrace.settle_eq hfuel, clusterPoints]
    rfl
  · intro j k p q hjk hp hq hcandidate hnear
    rw [Grid.upTo_eq_ofPoints, Grid.mem_candidates_ofPoints_iff] at hcandidate
    obtain ⟨q', hq', hbeside⟩ := hcandidate
    rw [List.getElem?_take_of_lt hjk, hq] at hq'
    obtain rfl := Option.some.inj hq'
    have hpair : (k, j) ∈ nearPairs tolerance (clusterPoints tolerance points).centroids :=
      mem_nearPairs_iff.mpr ⟨hjk, p, q, hp, hq, hbeside, hnear⟩
    rw [nearPairs_centroids_clusterPoints] at hpair
    exact List.not_mem_nil hpair

end Roadworks
