import Mathlib.Data.List.Nodup
import Roadworks.Proofs.Cluster.Settling
/-! # How clusters are numbered and placed

A clustering numbers the sets of points in the order of their lowest points. Each cluster lies at
the mean of its points, which are taken in the order of the points. -/

namespace Roadworks.Clustering

variable {α : Type} [Scalar α]

/-- A clustering of points: every point has a cluster, every cluster has points, clusters are
numbered in the order of their first points and lie at the means of their points. -/
structure Numbered (c : Clustering α) (points : List (Vec α)) : Prop where
  length_assignment : c.assignment.length = points.length
  lt_length : ∀ k ∈ c.assignment, k < c.centroids.length
  exists_point : ∀ k < c.centroids.length, k ∈ c.assignment
  first_lt_first : ∀ j k, j < k → k < c.centroids.length →
    c.assignment.idxOf j < c.assignment.idxOf k
  centroid_eq : ∀ k < c.centroids.length,
    c.centroids[k]? = some (centroid (members c.assignment points k))

/-! ## Labels -/

omit [Scalar α] in
/-- Points keep together when their labels are renamed without a clash. -/
theorem members_map {f : Nat → Nat} {labels : List Nat} {r : Nat}
    (hf : ∀ l ∈ labels, f l = f r → l = r) (points : List (Vec α)) :
    members (labels.map f) points (f r) = members labels points r := by
  rw [members, members, List.zip_map_left, List.filter_map, List.map_map]
  have htest : (labels.zip points).filter ((fun e => e.1 == f r) ∘ Prod.map f id) =
      (labels.zip points).filter fun e => e.1 == r := by
    apply List.filter_congr
    rintro ⟨l, p⟩ hmem
    have hl : l ∈ labels := (List.of_mem_zip hmem).1
    by_cases hlr : l = r
    · simp [hlr]
    · have hne : f l ≠ f r := fun h => hlr (hf l hl h)
      simp [hlr, hne]
  rw [htest]
  rfl

/-! ## The numbers of sets -/

theorem getElem?_assignment_ofSets {sets : DisjointSet} {points : List (Vec α)} {i : Nat}
    (hi : i < points.length) :
    (ofSets sets points).assignment[i]? =
      some ((sets.leaders points.length).idxOf (sets.root i)) := by
  rw [assignment_ofSets, List.getElem?_map, List.getElem?_range hi, Option.map_some]

theorem idxOf_root_lt {sets : DisjointSet} {n i : Nat} (hi : i < n) :
    (sets.leaders n).idxOf (sets.root i) < (sets.leaders n).length :=
  List.idxOf_lt_length_of_mem (sets.root_mem_leaders hi)

theorem idxOf_root_eq_iff {sets : DisjointSet} {n i j : Nat} (hi : i < n) :
    (sets.leaders n).idxOf (sets.root i) = (sets.leaders n).idxOf (sets.root j) ↔
      sets.root i = sets.root j :=
  List.idxOf_inj (sets.root_mem_leaders hi)

/-- The first point of a cluster is the leader of its set: no point before it has its root. -/
theorem idxOf_assignment_ofSets {sets : DisjointSet} {points : List (Vec α)} {k : Nat}
    (hk : k < (sets.leaders points.length).length) :
    (ofSets sets points).assignment.idxOf k = (sets.leaders points.length)[k] := by
  rcases DisjointSet.mem_leaders_iff.mp (List.getElem_mem hk) with ⟨hlt, hroot⟩
  have hnumber : (sets.leaders points.length).idxOf (sets.leaders points.length)[k] = k :=
    (sets.nodup_leaders points.length).idxOf_getElem k hk
  have hlength : (sets.leaders points.length)[k] < (ofSets sets points).assignment.length := by
    simpa [assignment_ofSets] using hlt
  rw [List.idxOf, List.findIdx_eq hlength]
  constructor
  · simp [assignment_ofSets, hroot, hnumber]
  · intro j hj
    have hne : sets.root j ≠ sets.root (sets.leaders points.length)[k] := by
      have hle := sets.root_le j
      omega
    have hidx := (idxOf_root_eq_iff (Nat.lt_trans hj hlt)).not.mpr hne
    rw [hroot, hnumber] at hidx
    simpa [assignment_ofSets] using hidx

theorem numbered_ofSets (sets : DisjointSet) (points : List (Vec α)) :
    Numbered (ofSets sets points) points := by
  have hlength : (ofSets sets points).centroids.length =
      (sets.leaders points.length).length := by
    rw [centroids_ofSets, List.length_map]
  constructor
  case length_assignment => simp [assignment_ofSets]
  case lt_length =>
    intro k hk
    rw [assignment_ofSets, List.mem_map] at hk
    obtain ⟨i, hi, rfl⟩ := hk
    rw [hlength]
    exact idxOf_root_lt (List.mem_range.mp hi)
  case exists_point =>
    intro k hk
    rw [hlength] at hk
    have hfirst := idxOf_assignment_ofSets hk
    rw [← List.idxOf_lt_length_iff, hfirst]
    simpa [assignment_ofSets] using (DisjointSet.mem_leaders_iff.mp (List.getElem_mem hk)).1
  case first_lt_first =>
    intro j k hjk hk
    rw [hlength] at hk
    rw [idxOf_assignment_ofSets hk, idxOf_assignment_ofSets (Nat.lt_trans hjk hk)]
    exact List.pairwise_iff_getElem.mp (sets.pairwise_leaders points.length) j k _ hk hjk
  case centroid_eq =>
    intro k hk
    rw [hlength] at hk
    have hnumber : (sets.leaders points.length).idxOf (sets.leaders points.length)[k] = k :=
      (sets.nodup_leaders points.length).idxOf_getElem k hk
    have hlabels : (ofSets sets points).assignment =
        (rootsOf sets points).map (sets.leaders points.length).idxOf := by
      rw [assignment_ofSets, rootsOf, List.map_map]
      rfl
    have hmembers : members (ofSets sets points).assignment points k =
        members (rootsOf sets points) points (sets.leaders points.length)[k] := by
      rw [hlabels]
      conv => lhs; rw [← hnumber]
      refine members_map ?_ points
      intro l hl heq
      rw [rootsOf, List.mem_map] at hl
      obtain ⟨i, hi, rfl⟩ := hl
      exact (List.idxOf_inj (sets.root_mem_leaders (List.mem_range.mp hi))).mp heq
    rw [centroids_ofSets, List.getElem?_map, List.getElem?_eq_getElem hk, Option.map_some,
      hmembers]
    rfl

theorem numbered_clusterPoints (tolerance : α) (points : List (Vec α)) :
    Numbered (clusterPoints tolerance points) points := by
  rcases exists_settled_clusterPoints_eq tolerance points with ⟨t, _, heq⟩
  rw [heq]
  exact numbered_ofSets t points

/-! ## Near points -/

/-- Points that are near share a cluster, since passes only join sets further. -/
theorem getD_assignment_eq_of_isNear {tolerance : α} {points : List (Vec α)} {i j : Nat} {p q : Vec α}
    (hp : points[i]? = some p) (hq : points[j]? = some q) (hlt : j < i)
    (hnear : IsNear tolerance q p) :
    (clusterPoints tolerance points).assignment.getD i 0 =
      (clusterPoints tolerance points).assignment.getD j 0 := by
  have hkept : KeptByPasses tolerance points fun s => s.root i = s.root j := by
    intro s hsize hroot
    exact DisjointSet.root_joinAll_snd_eq (covers_mergers hsize tolerance) hroot
  have hstart : (firstSets tolerance points).root i = (firstSets tolerance points).root j := by
    rw [firstSets, DisjointSet.root_joinAll_snd_eq_iff (covers_nearPairs tolerance points)]
    exact .rel _ _ (.inr (mem_nearPairs_iff.mpr ⟨hlt, p, q, hp, hq, hnear⟩))
  obtain ⟨t, _, hroot, heq⟩ := exists_clusterPoints_eq hkept hstart
  have hi : i < points.length := (List.getElem?_eq_some_iff.mp hp).1
  have hj : j < points.length := (List.getElem?_eq_some_iff.mp hq).1
  rw [heq, List.getD_eq_getElem?_getD, List.getD_eq_getElem?_getD, getElem?_assignment_ofSets hi,
    getElem?_assignment_ofSets hj, hroot]

/-- Equal points share a cluster where the distance of a point from itself is no more than the
tolerance. -/
theorem getD_assignment_eq_of_dist_self_le {tolerance : α} {points : List (Vec α)} {i j : Nat}
    {p : Vec α} (hi : points[i]? = some p) (hj : points[j]? = some p) (hself : p.dist p ≤ tolerance) :
    (clusterPoints tolerance points).assignment.getD i 0 =
      (clusterPoints tolerance points).assignment.getD j 0 := by
  have hnear : IsNear tolerance p p := ⟨by simp [Grid.isBeside], hself⟩
  rcases Nat.lt_trichotomy i j with hlt | rfl | hlt
  · exact (getD_assignment_eq_of_isNear hj hi hlt hnear).symm
  · rfl
  · exact getD_assignment_eq_of_isNear hi hj hlt hnear

end Roadworks.Clustering
