import Roadworks.Proofs.Cluster.Nearness
import Roadworks.Proofs.Forest.Joining
/-! # Merging clusters until they are apart

Every pass that joins clusters leaves fewer of them, so merging ends in a pass that finds no near
centroids. Nothing is asked of the arithmetic. -/

namespace Roadworks.Clustering

variable {α : Type} [Scalar α]

/-! ## Clusters of a forest -/

/-- The clusters that the sets of a forest make of numbered points. -/
def ofSets (sets : DisjointSet) (points : List (Vec α)) : Clustering α :=
  ofRoots (rootsOf sets points) points

/-- The mean of the points in the set with a given root. -/
def centre (sets : DisjointSet) (points : List (Vec α)) (r : Nat) : Vec α :=
  centroid (members (rootsOf sets points) points r)

theorem centroids_ofSets (sets : DisjointSet) (points : List (Vec α)) :
    (ofSets sets points).centroids = (sets.leaders points.length).map (centre sets points) := by
  rw [ofSets, ofRoots]
  dsimp only
  rw [rootsOf, DisjointSet.eraseDups_map_root]
  rfl

theorem assignment_ofSets (sets : DisjointSet) (points : List (Vec α)) :
    (ofSets sets points).assignment =
      (List.range points.length).map fun i =>
        (sets.leaders points.length).idxOf (sets.root i) := by
  rw [ofSets, ofRoots]
  dsimp only
  rw [rootsOf, DisjointSet.eraseDups_map_root, List.map_map]
  rfl

/-! ## One pass -/

/-- The pairs of roots that a pass joins, since the means of their sets are near. -/
def mergers (tolerance : α) (points : List (Vec α)) (sets : DisjointSet) : List (Nat × Nat) :=
  (nearPairs tolerance (ofSets sets points).centroids).map fun (i, j) =>
    ((sets.leaders points.length).getD i 0, (sets.leaders points.length).getD j 0)

theorem settle_succ (fuel : Nat) (tolerance : α) (points : List (Vec α)) (sets : DisjointSet) :
    settle (fuel + 1) tolerance points sets =
      match sets.joinAll (mergers tolerance points sets) with
      | (true, joined) => settle fuel tolerance points joined
      | (false, _) => ofSets sets points := by
  rw [settle, mergers, ← DisjointSet.eraseDups_map_root]
  rfl

/-- A pass joins every leader with each lower one whose centre is near. -/
theorem mem_mergers_iff {tolerance : α} {points : List (Vec α)} {sets : DisjointSet} {a b : Nat} :
    (a, b) ∈ mergers tolerance points sets ↔
      a ∈ sets.leaders points.length ∧ b ∈ sets.leaders points.length ∧ b < a ∧
        IsNear tolerance (centre sets points b) (centre sets points a) := by
  have hsorted := List.pairwise_iff_getElem.mp (sets.pairwise_leaders points.length)
  rw [mergers, centroids_ofSets, List.mem_map]
  constructor
  · rintro ⟨⟨i, j⟩, hij, heq⟩
    rcases mem_nearPairs_iff.mp hij with ⟨hlt, p, q, hp, hq, hnear⟩
    rw [List.getElem?_map, Option.map_eq_some_iff] at hp hq
    obtain ⟨a', ha', rfl⟩ := hp
    obtain ⟨b', hb', rfl⟩ := hq
    have hgetD := Prod.mk.inj heq
    simp only [List.getD_eq_getElem?_getD, ha', hb', Option.getD_some] at hgetD
    obtain ⟨rfl, rfl⟩ := hgetD
    rcases List.getElem?_eq_some_iff.mp ha' with ⟨hi, rfl⟩
    rcases List.getElem?_eq_some_iff.mp hb' with ⟨hj, rfl⟩
    exact ⟨List.getElem_mem hi, List.getElem_mem hj, hsorted j i hj hi hlt, hnear⟩
  · rintro ⟨ha, hb, hlt, hnear⟩
    rcases List.getElem_of_mem ha with ⟨i, hi, rfl⟩
    rcases List.getElem_of_mem hb with ⟨j, hj, rfl⟩
    have hji : j < i := by
      by_contra hle
      rcases Nat.eq_or_lt_of_le (Nat.le_of_not_lt hle) with rfl | hij
      · exact Nat.lt_irrefl _ hlt
      · exact Nat.lt_asymm hlt (hsorted i j hi hj hij)
    refine ⟨(i, j), mem_nearPairs_iff.mpr ⟨hji, _, _, ?_, ?_, hnear⟩, ?_⟩
    · rw [List.getElem?_map, List.getElem?_eq_getElem hi, Option.map_some]
    · rw [List.getElem?_map, List.getElem?_eq_getElem hj, Option.map_some]
    · simp [List.getD_eq_getElem?_getD, hi, hj]

theorem covers_mergers {points : List (Vec α)} {sets : DisjointSet}
    (hsize : sets.parents.size = points.length) (tolerance : α) :
    sets.Covers (mergers tolerance points sets) := by
  rintro ⟨a, b⟩ hab
  rcases mem_mergers_iff.mp hab with ⟨ha, hb, _⟩
  rw [hsize]
  exact ⟨(DisjointSet.mem_leaders_iff.mp ha).1, (DisjointSet.mem_leaders_iff.mp hb).1⟩

/-- The roots of a pair are its own numbers, which differ, so a pass with a pair joins sets. -/
theorem joinAll_mergers_fst_iff {points : List (Vec α)} {sets : DisjointSet}
    (hsize : sets.parents.size = points.length) (tolerance : α) :
    (sets.joinAll (mergers tolerance points sets)).1 = true ↔
      mergers tolerance points sets ≠ [] := by
  rw [DisjointSet.joinAll_fst_iff (covers_mergers hsize tolerance), List.ne_nil_iff_exists_cons]
  constructor
  · rintro ⟨p, hp, _⟩
    rcases List.exists_cons_of_ne_nil (List.ne_nil_of_mem hp) with ⟨_, _, h⟩
    exact ⟨_, _, h⟩
  · rintro ⟨⟨a, b⟩, rest, h⟩
    have hmem : (a, b) ∈ mergers tolerance points sets := by rw [h]; exact List.mem_cons_self
    rcases mem_mergers_iff.mp hmem with ⟨ha, hb, hlt, _⟩
    refine ⟨(a, b), hmem, ?_⟩
    have hra := (DisjointSet.mem_leaders_iff.mp ha).2
    have hrb := (DisjointSet.mem_leaders_iff.mp hb).2
    dsimp only
    omega

theorem length_leaders_joinAll_mergers_lt {points : List (Vec α)} {sets : DisjointSet}
    (hsize : sets.parents.size = points.length) {tolerance : α}
    (h : (sets.joinAll (mergers tolerance points sets)).1 = true) :
    ((sets.joinAll (mergers tolerance points sets)).2.leaders points.length).length <
      (sets.leaders points.length).length := by
  have hcovers := covers_mergers hsize tolerance
  rcases (DisjointSet.joinAll_fst_iff hcovers).mp h with ⟨⟨a, b⟩, hab, hapart⟩
  have hbound := hcovers (a, b) hab
  rw [hsize] at hbound
  have hjoined : (sets.joinAll (mergers tolerance points sets)).2.root a =
      (sets.joinAll (mergers tolerance points sets)).2.root b :=
    (DisjointSet.root_joinAll_snd_eq_iff hcovers a b).mpr (.rel _ _ (.inr hab))
  exact DisjointSet.length_leaders_lt (fun i j hij => DisjointSet.root_joinAll_snd_eq hcovers hij)
    hbound.1 hbound.2 hapart hjoined

/-! ## All passes -/

/-- The sets of a forest are settled when a pass finds nothing to join. -/
structure Settled (tolerance : α) (points : List (Vec α)) (sets : DisjointSet) : Prop where
  size_eq : sets.parents.size = points.length
  mergers_eq : mergers tolerance points sets = []

/-- A property of forests that every pass keeps. -/
def KeptByPasses (tolerance : α) (points : List (Vec α)) (invariant : DisjointSet → Prop) : Prop :=
  ∀ s : DisjointSet, s.parents.size = points.length → invariant s →
    invariant (s.joinAll (mergers tolerance points s)).2

/-- With more fuel than leaders, merging ends in settled sets, of which everything holds that held
at the start and that passes keep. -/
theorem exists_settle_eq {tolerance : α} {points : List (Vec α)} {fuel : Nat} {sets : DisjointSet}
    {invariant : DisjointSet → Prop} (hkept : KeptByPasses tolerance points invariant)
    (hsize : sets.parents.size = points.length) (hstart : invariant sets)
    (hfuel : (sets.leaders points.length).length < fuel) :
    ∃ t : DisjointSet, Settled tolerance points t ∧ invariant t ∧
      settle fuel tolerance points sets = ofSets t points := by
  -- Every pass that goes on leaves fewer leaders, so the fuel stays above their number.
  induction fuel generalizing sets with
  | zero => omega
  | succ fuel ih =>
      rw [settle_succ]
      cases hjoin : sets.joinAll (mergers tolerance points sets) with
      | mk changed joined =>
          have hsnd : joined = (sets.joinAll (mergers tolerance points sets)).2 := by rw [hjoin]
          cases changed with
          | false =>
              have hnil : mergers tolerance points sets = [] := by
                by_contra hne
                have := (joinAll_mergers_fst_iff hsize tolerance).mpr hne
                rw [hjoin] at this
                cases this
              exact ⟨sets, ⟨hsize, hnil⟩, hstart, rfl⟩
          | true =>
              have hfst : (sets.joinAll (mergers tolerance points sets)).1 = true := by rw [hjoin]
              have hless := length_leaders_joinAll_mergers_lt hsize hfst
              have hsize' : joined.parents.size = points.length := by
                rw [hsnd, DisjointSet.size_joinAll_snd, hsize]
              have hstart' : invariant joined := by
                rw [hsnd]
                exact hkept sets hsize hstart
              rw [← hsnd] at hless
              exact ih hsize' hstart' (by omega)

/-- The sets before the first pass: those of near points. -/
def firstSets (tolerance : α) (points : List (Vec α)) : DisjointSet :=
  ((DisjointSet.new points.length).joinAll (nearPairs tolerance points)).2

theorem covers_nearPairs (tolerance : α) (points : List (Vec α)) :
    (DisjointSet.new points.length).Covers (nearPairs tolerance points) := by
  rintro ⟨i, j⟩ hij
  rcases lt_length_of_mem_nearPairs hij with ⟨hlt, hi⟩
  simp only [DisjointSet.new, Array.size_range]
  omega

theorem size_firstSets (tolerance : α) (points : List (Vec α)) :
    (firstSets tolerance points).parents.size = points.length := by
  rw [firstSets, DisjointSet.size_joinAll_snd]
  simp [DisjointSet.new]

theorem length_leaders_le (sets : DisjointSet) (n : Nat) : (sets.leaders n).length ≤ n := by
  simpa [DisjointSet.leaders] using List.length_filter_le (fun i => sets.root i == i) (List.range n)

/-- Clustering ends in settled sets, of which everything holds that holds of the sets of near points
and that passes keep. -/
theorem exists_clusterPoints_eq {tolerance : α} {points : List (Vec α)}
    {invariant : DisjointSet → Prop} (hkept : KeptByPasses tolerance points invariant)
    (hstart : invariant (firstSets tolerance points)) :
    ∃ t : DisjointSet, Settled tolerance points t ∧ invariant t ∧
      clusterPoints tolerance points = ofSets t points := by
  rw [clusterPoints]
  exact exists_settle_eq hkept (size_firstSets tolerance points) hstart
    (Nat.lt_succ_of_le (length_leaders_le _ _))

theorem exists_settled_clusterPoints_eq (tolerance : α) (points : List (Vec α)) :
    ∃ t : DisjointSet, Settled tolerance points t ∧
      clusterPoints tolerance points = ofSets t points := by
  have hkept : KeptByPasses tolerance points fun _ => True := fun _ _ _ => trivial
  rcases exists_clusterPoints_eq hkept trivial with ⟨t, ht, _, heq⟩
  exact ⟨t, ht, heq⟩

/-- No two centroids of a clustering are near. -/
theorem nearPairs_centroids_clusterPoints (tolerance : α) (points : List (Vec α)) :
    nearPairs tolerance (clusterPoints tolerance points).centroids = [] := by
  rcases exists_settled_clusterPoints_eq tolerance points with ⟨t, ht, heq⟩
  have hnil := ht.mergers_eq
  rw [mergers, List.map_eq_nil_iff] at hnil
  rw [heq, hnil]

end Roadworks.Clustering
