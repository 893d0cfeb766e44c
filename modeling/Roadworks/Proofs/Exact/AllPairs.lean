import Mathlib.Data.List.ProdSigma
import Roadworks.Proofs.Cluster.Numbering
import Roadworks.Proofs.Exact.Nearness
/-! # Clustering that compares all pairs

Without a grid and without a forest, clusters are labels on points and every pair is compared. Over
the reals this gives the same clusters at the same places. -/

namespace Roadworks

variable {α : Type} [Scalar α]

/-- The numbers of all pairs of points within `tolerance` of each other. -/
def closePairs (tolerance : α) (points : List (Vec α)) : List (Nat × Nat) :=
  ((points.zipIdx ×ˢ points.zipIdx).filter fun (p, q) => p.1.dist q.1 ≤ tolerance).map
    fun (p, q) => (p.2, q.2)

theorem mem_closePairs_iff {tolerance : α} {points : List (Vec α)} {i j : Nat} :
    (i, j) ∈ closePairs tolerance points ↔
      ∃ p q, points[i]? = some p ∧ points[j]? = some q ∧ p.dist q ≤ tolerance := by
  simp only [closePairs, List.mem_map, List.mem_filter, decide_eq_true_eq]
  constructor
  · rintro ⟨⟨p, q⟩, ⟨hmem, hdist⟩, heq⟩
    obtain ⟨rfl, rfl⟩ := Prod.mk.inj heq
    obtain ⟨hp, hq⟩ := List.pair_mem_product.mp hmem
    exact ⟨p.1, q.1, List.mem_zipIdx_iff_getElem?.mp hp, List.mem_zipIdx_iff_getElem?.mp hq, hdist⟩
  · rintro ⟨p, q, hp, hq, hdist⟩
    have hmem : ((p, i), q, j) ∈ points.zipIdx ×ˢ points.zipIdx :=
      List.pair_mem_product.mpr
        ⟨List.mem_zipIdx_iff_getElem?.mpr hp, List.mem_zipIdx_iff_getElem?.mpr hq⟩
    exact ⟨((p, i), q, j), ⟨hmem, hdist⟩, rfl⟩

namespace Clustering

/-! ## Labels -/

/-- Gives all points under two labels the lower one. -/
def relabel (labels : List Nat) (a b : Nat) : List Nat :=
  labels.map fun l => if l = max a b then min a b else l

/-- Joins the clusters of two points, pair after pair. -/
def relabelAll (labels : List Nat) : List (Nat × Nat) → List Nat
  | [] => labels
  | (i, j) :: rest => relabelAll (relabel labels (labels.getD i 0) (labels.getD j 0)) rest

/-- Joins every pair of clusters with close centroids. A label is the number of the first point that
has it. -/
def relabelClose (tolerance : α) (points : List (Vec α)) (labels : List Nat) : List Nat :=
  relabelAll labels ((closePairs tolerance (ofRoots labels points).centroids).map fun (i, j) =>
    (labels.eraseDups.getD i 0, labels.eraseDups.getD j 0))

/-- Labels only become lower, so where they change their sum becomes less. -/
theorem relabel_eq_or_sum_lt (labels : List Nat) (a b : Nat) :
    relabel labels a b = labels ∨ (relabel labels a b).sum < labels.sum := by
  induction labels with
  | nil => exact .inl rfl
  | cons l labels ih =>
      rw [relabel, List.map_cons, ← relabel, List.sum_cons, List.sum_cons]
      have hle : (if l = max a b then min a b else l) ≤ l := by
        split <;> omega
      rcases Nat.eq_or_lt_of_le hle with heq | hlt
      · rw [heq]
        rcases ih with hsame | hless
        · exact .inl (congrArg _ hsame)
        · exact .inr (Nat.add_lt_add_left hless l)
      · rcases ih with hsame | hless
        · exact .inr (by rw [hsame]; exact Nat.add_lt_add_right hlt _)
        · exact .inr (Nat.add_lt_add hlt hless)

theorem relabelAll_eq_or_sum_lt (labels : List Nat) (pairs : List (Nat × Nat)) :
    relabelAll labels pairs = labels ∨ (relabelAll labels pairs).sum < labels.sum := by
  induction pairs generalizing labels with
  | nil => exact .inl rfl
  | cons p pairs ih =>
      rw [relabelAll]
      rcases relabel_eq_or_sum_lt labels (labels.getD p.1 0) (labels.getD p.2 0) with hsame | hless
      · rw [hsame]
        exact ih labels
      · rcases ih (relabel labels (labels.getD p.1 0) (labels.getD p.2 0)) with hsame | hmore
        · rw [hsame]
          exact .inr hless
        · exact .inr (Nat.lt_trans hmore hless)

/-- Joins clusters with close centroids until a pass joins none. -/
def mergeClose (tolerance : α) (points : List (Vec α)) (labels : List Nat) : Clustering α :=
  if _h : relabelClose tolerance points labels = labels then ofRoots labels points
  else mergeClose tolerance points (relabelClose tolerance points labels)
termination_by labels.sum
decreasing_by exact (relabelAll_eq_or_sum_lt _ _).resolve_left _h

end Clustering

/-- Groups points by comparing all pairs of points, and then all pairs of centroids in every pass. -/
def clusterAllPairs (tolerance : α) (points : List (Vec α)) : Clustering α :=
  Clustering.mergeClose tolerance points
    (Clustering.relabelAll (List.range points.length) (closePairs tolerance points))

/-! ## Labels and roots -/

namespace DisjointSet

/-- A forest is known by which numbers share a root, since the root is the lowest of them. -/
theorem root_eq_of_root_eq_iff {s t : DisjointSet}
    (h : ∀ i j, s.root i = s.root j ↔ t.root i = t.root j) (i : Nat) : s.root i = t.root i := by
  have hst : t.root (s.root i) = t.root i := (h _ _).mp (s.root_root i)
  have hts : s.root (t.root i) = s.root i := (h _ _).mpr (t.root_root i)
  have hle := t.root_le (s.root i)
  have hge := s.root_le (t.root i)
  omega

/-- Joining along more pairs, or along pairs the other way round, makes the same sets, as long as no
pair joins what the first pairs do not. -/
theorem root_joinAll_snd_congr {s : DisjointSet} {few more : List (Nat × Nat)}
    (hcovers : s.Covers more) (hmore : ∀ p ∈ few, p ∈ more)
    (hfew : ∀ i j, (i, j) ∈ more → i = j ∨ (i, j) ∈ few ∨ (j, i) ∈ few) (i : Nat) :
    (s.joinAll few).2.root i = (s.joinAll more).2.root i := by
  refine root_eq_of_root_eq_iff (fun a b => ?_) i
  rw [root_joinAll_snd_eq_iff fun p hp => hcovers p (hmore p hp), root_joinAll_snd_eq_iff hcovers]
  constructor
  · exact Relation.EqvGen.mono (fun x y hxy => hxy.imp_right (hmore _)) a b
  · refine Relation.EqvGen.eqvGen_le ?_ a b
    rintro x y (hroot | hpair)
    · exact .rel _ _ (.inl hroot)
    · rcases hfew x y hpair with rfl | hxy | hyx
      · exact .refl _
      · exact .rel _ _ (.inr hxy)
      · exact .symm _ _ (.rel _ _ (.inr hyx))

end DisjointSet

namespace Clustering

omit [Scalar α] in
theorem getD_rootsOf {points : List (Vec α)} {i : Nat} (hi : i < points.length)
    (sets : DisjointSet) : (rootsOf sets points).getD i 0 = sets.root i := by
  simp [rootsOf, List.getD_eq_getElem?_getD, hi]

omit [Scalar α] in
/-- Points that have their roots as labels are relabelled as their sets are joined. -/
theorem relabelAll_rootsOf {points : List (Vec α)} {sets : DisjointSet} {pairs : List (Nat × Nat)}
    (hsize : sets.parents.size = points.length) (hcovers : sets.Covers pairs) :
    relabelAll (rootsOf sets points) pairs = rootsOf (sets.joinAll pairs).2 points := by
  induction pairs generalizing sets with
  | nil => rfl
  | cons p pairs ih =>
      obtain ⟨i, j⟩ := p
      obtain ⟨hi, hj⟩ := hcovers (i, j) List.mem_cons_self
      have hunion : relabel (rootsOf sets points) (sets.root i) (sets.root j) =
          rootsOf (sets.union i j).2 points := by
        rw [relabel, rootsOf, rootsOf, List.map_map]
        exact List.map_congr_left fun k _ => (sets.root_union_snd hi hj k).symm
      rw [relabelAll, getD_rootsOf (hsize ▸ hi), getD_rootsOf (hsize ▸ hj), hunion,
        ih (by rw [DisjointSet.size_union_snd, hsize]) hcovers.union]
      rfl

/-! ## The same passes -/

variable {tolerance : ℝ} {points : List (Vec ℝ)} {sets : DisjointSet}

/-- The grid search leaves out only what joins nothing: a point with itself, and each pair the other
way round. -/
theorem mem_closePairs_iff_nearPairs (ht : 0 < tolerance) {i j : Nat} :
    (i, j) ∈ closePairs tolerance points ↔ (i = j ∧ i < points.length) ∨
      (i, j) ∈ nearPairs tolerance points ∨ (j, i) ∈ nearPairs tolerance points := by
  simp only [mem_closePairs_iff, mem_nearPairs_iff, isNear_iff ht]
  constructor
  · rintro ⟨p, q, hp, hq, hdist⟩
    rcases Nat.lt_trichotomy i j with hlt | rfl | hlt
    · exact .inr (.inr ⟨hlt, q, p, hq, hp, hdist⟩)
    · exact .inl ⟨rfl, (List.getElem?_eq_some_iff.mp hp).1⟩
    · exact .inr (.inl ⟨hlt, p, q, hp, hq, Vec.dist_comm p q ▸ hdist⟩)
  · rintro (⟨rfl, hi⟩ | ⟨_, p, q, hp, hq, hdist⟩ | ⟨_, q, p, hq, hp, hdist⟩)
    · have hself : points[i].dist points[i] ≤ tolerance := (Vec.dist_self _).trans_le ht.le
      exact ⟨_, _, List.getElem?_eq_getElem hi, List.getElem?_eq_getElem hi, hself⟩
    · exact ⟨p, q, hp, hq, Vec.dist_comm q p ▸ hdist⟩
    · exact ⟨p, q, hp, hq, hdist⟩

/-- Comparing all points gives every point the root that it has after the grid search. -/
theorem relabelAll_closePairs (ht : 0 < tolerance) (points : List (Vec ℝ)) :
    relabelAll (List.range points.length) (closePairs tolerance points) =
      rootsOf (firstSets tolerance points) points := by
  have hsize : (DisjointSet.new points.length).parents.size = points.length := by
    simp [DisjointSet.new]
  have hcovers : (DisjointSet.new points.length).Covers (closePairs tolerance points) := by
    rintro ⟨i, j⟩ hij
    rw [hsize]
    obtain ⟨p, q, hp, hq, _⟩ := mem_closePairs_iff.mp hij
    exact ⟨(List.getElem?_eq_some_iff.mp hp).1, (List.getElem?_eq_some_iff.mp hq).1⟩
  have hstart : List.range points.length = rootsOf (.new points.length) points :=
    (List.map_id'' (DisjointSet.root_new _) _).symm
  rw [hstart, relabelAll_rootsOf hsize hcovers]
  refine List.map_congr_left fun i _ => Eq.symm ?_
  refine DisjointSet.root_joinAll_snd_congr hcovers ?_ ?_ i
  · intro p hp
    exact (mem_closePairs_iff_nearPairs ht).mpr (.inr (.inl hp))
  · intro i j hij
    exact ((mem_closePairs_iff_nearPairs ht).mp hij).imp_left And.left

/-- The pairs of roots whose sets have close means. -/
noncomputable def closeMergers (tolerance : ℝ) (points : List (Vec ℝ)) (sets : DisjointSet) :
    List (Nat × Nat) :=
  (closePairs tolerance (ofSets sets points).centroids).map fun (i, j) =>
    ((sets.leaders points.length).getD i 0, (sets.leaders points.length).getD j 0)

theorem getD_leaders_lt {i : Nat} (hi : i < (ofSets sets points).centroids.length) :
    (sets.leaders points.length).getD i 0 < points.length := by
  rw [centroids_ofSets, List.length_map] at hi
  rw [List.getD_eq_getElem?_getD, List.getElem?_eq_getElem hi, Option.getD_some]
  exact (DisjointSet.mem_leaders_iff.mp (List.getElem_mem hi)).1

/-- Comparing all centroids joins the sets that a pass over the forest joins. -/
theorem relabelClose_rootsOf (ht : 0 < tolerance) (hsize : sets.parents.size = points.length) :
    relabelClose tolerance points (rootsOf sets points) =
      rootsOf (sets.joinAll (mergers tolerance points sets)).2 points := by
  have hleaders : (rootsOf sets points).eraseDups = sets.leaders points.length :=
    sets.eraseDups_map_root points.length
  have hclose : relabelClose tolerance points (rootsOf sets points) =
      relabelAll (rootsOf sets points) (closeMergers tolerance points sets) := by
    rw [relabelClose, hleaders]
    rfl
  have hcovers : sets.Covers (closeMergers tolerance points sets) := by
    intro p hp
    obtain ⟨⟨i, j⟩, hij, rfl⟩ := List.mem_map.mp hp
    obtain ⟨_, _, hi, hj, _⟩ := mem_closePairs_iff.mp hij
    rw [hsize]
    exact ⟨getD_leaders_lt (List.getElem?_eq_some_iff.mp hi).1,
      getD_leaders_lt (List.getElem?_eq_some_iff.mp hj).1⟩
  rw [hclose, relabelAll_rootsOf hsize hcovers]
  refine List.map_congr_left fun k _ => Eq.symm (DisjointSet.root_joinAll_snd_congr hcovers ?_ ?_ k)
  · exact List.map_subset _ fun p hp => (mem_closePairs_iff_nearPairs ht).mpr (.inr (.inl hp))
  · intro a b hab
    obtain ⟨⟨i, j⟩, hij, heq⟩ := List.mem_map.mp hab
    obtain ⟨rfl, rfl⟩ := Prod.mk.inj heq
    rcases (mem_closePairs_iff_nearPairs ht).mp hij with ⟨rfl, _⟩ | hnear | hnear
    · exact .inl rfl
    · exact .inr (.inl (List.mem_map_of_mem hnear))
    · exact .inr (.inr (List.mem_map_of_mem hnear))

/-- Labels are merged in the same way before and after a pass. -/
theorem mergeClose_joinAll_mergers (ht : 0 < tolerance)
    (hsize : sets.parents.size = points.length) :
    mergeClose tolerance points (rootsOf (sets.joinAll (mergers tolerance points sets)).2 points) =
      mergeClose tolerance points (rootsOf sets points) := by
  have hpass := relabelClose_rootsOf ht hsize
  by_cases hsame : relabelClose tolerance points (rootsOf sets points) = rootsOf sets points
  · rw [← hpass, hsame]
  · conv => rhs; rw [mergeClose, dif_neg hsame, hpass]

theorem Settled.mergeClose_rootsOf (ht : 0 < tolerance) (h : Settled tolerance points sets) :
    mergeClose tolerance points (rootsOf sets points) = ofSets sets points := by
  have hpass := relabelClose_rootsOf ht h.size_eq
  rw [h.mergers_eq, DisjointSet.joinAll] at hpass
  rw [mergeClose, dif_pos hpass, ofSets]

/-- Merging ends where it would have ended without the passes already made, and the grid search
finds the same clusters to begin with. -/
theorem clusterPoints_eq (ht : 0 < tolerance) (points : List (Vec ℝ)) :
    clusterPoints tolerance points = clusterAllPairs tolerance points := by
  have hkept : KeptByPasses tolerance points fun s =>
      mergeClose tolerance points (rootsOf s points) = clusterAllPairs tolerance points :=
    fun s hsize hmerge => (mergeClose_joinAll_mergers ht hsize).trans hmerge
  have hstart : mergeClose tolerance points (rootsOf (firstSets tolerance points) points) =
      clusterAllPairs tolerance points := by
    rw [← relabelAll_closePairs ht, clusterAllPairs]
  obtain ⟨t, hsettled, hmerge, heq⟩ := exists_clusterPoints_eq hkept hstart
  rw [heq, ← hmerge, hsettled.mergeClose_rootsOf ht]

theorem getD_assignment_eq_of_dist_le (ht : 0 < tolerance) {i j : Nat} {p q : Vec ℝ}
    (hp : points[i]? = some p) (hq : points[j]? = some q) (hdist : p.dist q ≤ tolerance) :
    (clusterPoints tolerance points).assignment.getD i 0 =
      (clusterPoints tolerance points).assignment.getD j 0 := by
  have hnear := (isNear_iff ht).mpr hdist
  rcases Nat.lt_trichotomy i j with hlt | rfl | hlt
  · exact (getD_assignment_eq_of_isNear hq hp hlt hnear).symm
  · rfl
  · exact getD_assignment_eq_of_isNear hp hq hlt ((isNear_comm ht).mp hnear)

theorem pairwise_centroids_clusterPoints (ht : 0 < tolerance) (points : List (Vec ℝ)) :
    (clusterPoints tolerance points).centroids.Pairwise fun c d => tolerance < c.dist d := by
  have hnone := nearPairs_eq_nil_iff.mp (nearPairs_centroids_clusterPoints tolerance points)
  exact hnone.imp fun hfar => not_le.mp fun hle => hfar ((isNear_iff ht).mpr hle)

end Clustering

/-- Clustering with a grid and a forest is clustering that compares all pairs. Any two points within
the tolerance share a cluster, and any two centroids are further apart. -/
theorem clusterPoints_eq_clusterAllPairs {tolerance : ℝ} (ht : 0 < tolerance)
    (points : List (Vec ℝ)) :
    clusterPoints tolerance points = clusterAllPairs tolerance points ∧
      (∀ (i j : Nat) (p q : Vec ℝ), points[i]? = some p → points[j]? = some q →
        p.dist q ≤ tolerance → (clusterPoints tolerance points).assignment.getD i 0 =
          (clusterPoints tolerance points).assignment.getD j 0) ∧
      (clusterPoints tolerance points).centroids.Pairwise fun c d => tolerance < c.dist d :=
  ⟨Clustering.clusterPoints_eq ht points,
    fun _ _ _ _ hp hq hdist => Clustering.getD_assignment_eq_of_dist_le ht hp hq hdist,
    Clustering.pairwise_centroids_clusterPoints ht points⟩

/-- Points beyond the last column of cells, the first two of them near each other. -/
noncomputable def outermost : List (Vec ℝ) := [⟨10 ^ 30, 0⟩, ⟨10 ^ 30 + 1, 0⟩, ⟨10 ^ 30 + 5, 0⟩]

theorem clusterPoints_outermost :
    clusterPoints 1 outermost = clusterAllPairs 1 outermost ∧
      (clusterPoints 1 outermost).assignment.getD 0 0 =
        (clusterPoints 1 outermost).assignment.getD 1 0 := by
  obtain ⟨heq, hshare, _⟩ := clusterPoints_eq_clusterAllPairs one_pos outermost
  have hdist : (⟨10 ^ 30, 0⟩ : Vec ℝ).dist ⟨10 ^ 30 + 1, 0⟩ ≤ 1 := by
    rw [Vec.dist_eq]
    norm_num
  exact ⟨heq, hshare 0 1 _ _ rfl rfl hdist⟩

end Roadworks
