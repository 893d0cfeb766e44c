import Roadworks.Proofs.Cluster.Numbering
import Roadworks.Proofs.Exact.Linkage
/-! # What the forest of a clustering computes

Every pass over the forest makes the links that the same pass over the bare points makes, so a
clustering puts every point into the cluster of its home. -/

namespace Roadworks

open Relation

/-! ## Chains of numbers and chains of values -/

/-- Chains among the numbers of a list are chains among its values, where a step among numbers is a
chain among values, and the other way round. -/
theorem eqvGen_iff_of_getElem? {β : Type} {l : List β} {a : Nat → Nat → Prop} {b : β → β → Prop}
    (ha : ∀ i j, a i j → (i < l.length ↔ j < l.length))
    (hb : ∀ p q, b p q → (p ∈ l ↔ q ∈ l))
    (hab : ∀ i j p q, l[i]? = some p → l[j]? = some q → a i j → EqvGen b p q)
    (hba : ∀ i j p q, l[i]? = some p → l[j]? = some q → b p q ∨ p = q → EqvGen a i j)
    {i j : Nat} {p q : β} (hp : l[i]? = some p) (hq : l[j]? = some q) :
    EqvGen a i j ↔ EqvGen b p q := by
  constructor
  · intro h
    -- A chain must not leave the list, or its steps would be no chains of values.
    have hall : (i < l.length ↔ j < l.length) ∧
        ∀ p q, l[i]? = some p → l[j]? = some q → EqvGen b p q := by
      clear hp hq
      induction h with
      | rel i j h => exact ⟨ha i j h, fun p q hp hq => hab i j p q hp hq h⟩
      | refl i =>
          refine ⟨Iff.rfl, fun p q hp hq => ?_⟩
          obtain rfl := Option.some.inj (hp.symm.trans hq)
          exact .refl p
      | symm i j _ ih => exact ⟨ih.1.symm, fun p q hp hq => (ih.2 q p hq hp).symm⟩
      | trans i k j _ _ ihi ihj =>
          refine ⟨ihi.1.trans ihj.1, fun p q hp hq => ?_⟩
          have hk := ihi.1.mp (List.getElem?_eq_some_iff.mp hp).1
          have hr := List.getElem?_eq_getElem hk
          exact .trans _ _ _ (ihi.2 p _ hp hr) (ihj.2 _ q hr hq)
    exact hall.2 p q hp hq
  · intro h
    have hall : (p ∈ l ↔ q ∈ l) ∧
        ∀ i j, l[i]? = some p → l[j]? = some q → EqvGen a i j := by
      clear hp hq
      induction h with
      | rel p q h => exact ⟨hb p q h, fun i j hp hq => hba i j p q hp hq (.inl h)⟩
      | refl p => exact ⟨Iff.rfl, fun i j hp hq => hba i j p p hp hq (.inr rfl)⟩
      | symm p q _ ih => exact ⟨ih.1.symm, fun i j hp hq => (ih.2 j i hq hp).symm⟩
      | trans p r q _ _ ihp ihq =>
          refine ⟨ihp.1.trans ihq.1, fun i j hp hq => ?_⟩
          have hr := ihp.1.mp (List.mem_of_getElem? hp)
          rcases List.mem_iff_getElem?.mp hr with ⟨k, hk⟩
          exact .trans _ _ _ (ihp.2 i k hp hk) (ihq.2 k j hk hq)
    exact hall.2 i j hp hq

namespace Clustering

open Linkage

variable {tolerance : ℝ} {points : List (Vec ℝ)} {sets : DisjointSet}
  {links : Vec ℝ → Vec ℝ → Prop}

/-- The sets of a forest hold those points together that are linked. -/
structure Tracks (points : List (Vec ℝ)) (sets : DisjointSet) (links : Vec ℝ → Vec ℝ → Prop) :
    Prop where
  size_eq : sets.parents.size = points.length
  root_eq_iff : ∀ (i j : Nat) (p q : Vec ℝ), points[i]? = some p → points[j]? = some q →
    (sets.root i = sets.root j ↔ links p q)

/-! ## Means -/

theorem centroid_eq_mean (points : List (Vec ℝ)) : centroid points = mean points := by
  rw [centroid, mean, Multiset.sum_coe, Multiset.coe_card, List.sum_eq_foldl, Vec.zero_eq]

open Classical in
theorem Tracks.members_eq (h : Tracks points sets links) {i : Nat} {p : Vec ℝ}
    (hp : points[i]? = some p) :
    members (rootsOf sets points) points (sets.root i) = points.filter (links p) := by
  have htest : ((List.range points.length).zip points).filter
        (fun e => sets.root e.1 == sets.root i) =
      ((List.range points.length).zip points).filter fun e => decide (links p e.2) := by
    apply List.filter_congr
    rintro ⟨j, q⟩ hmem
    rcases List.mem_iff_getElem?.mp hmem with ⟨k, hk⟩
    rcases List.getElem?_zip_eq_some.mp hk with ⟨hrange, hq⟩
    rcases List.getElem?_eq_some_iff.mp hrange with ⟨_, rfl⟩
    rw [List.getElem_range, beq_eq_decide, decide_eq_decide, eq_comm]
    exact h.root_eq_iff i k p q hp hq
  rw [members, rootsOf, List.zip_map_left, List.filter_map, List.map_map]
  calc _ = (((List.range points.length).zip points).filter
        fun e => sets.root e.1 == sets.root i).map (·.2) := rfl
    _ = (((List.range points.length).zip points).map (·.2)).filter (links p) := by
        rw [htest, List.filter_map]
        rfl
    _ = points.filter (links p) := by rw [List.map_snd_zip (by simp)]

theorem Tracks.centre_eq (h : Tracks points sets links) {i : Nat} {p : Vec ℝ}
    (hp : points[i]? = some p) :
    centre sets points (sets.root i) = mean (group points links p) := by
  rw [centre, h.members_eq hp, centroid_eq_mean, group, Multiset.filter_coe]

/-! ## Passes -/

theorem tracks_firstSets (ht : 0 < tolerance) (points : List (Vec ℝ)) :
    Tracks points (firstSets tolerance points) (first tolerance points) := by
  refine ⟨size_firstSets tolerance points, fun i j p q hp hq => ?_⟩
  rw [firstSets, DisjointSet.root_joinAll_snd_eq_iff (covers_nearPairs tolerance points)]
  refine eqvGen_iff_of_getElem? ?_ ?_ ?_ ?_ hp hq
  · rintro i j (hroot | hpair)
    · rw [DisjointSet.root_new, DisjointSet.root_new] at hroot
      rw [hroot]
    · have hlt := lt_length_of_mem_nearPairs hpair
      omega
  · rintro p q ⟨hp, hq, _⟩
    exact iff_of_true hp hq
  · rintro i j p q hp hq (hroot | hpair)
    · rw [DisjointSet.root_new, DisjointSet.root_new] at hroot
      subst hroot
      obtain rfl := Option.some.inj (hp.symm.trans hq)
      exact .refl p
    · rcases mem_nearPairs_iff.mp hpair with ⟨_, p', q', hp', hq', hnear⟩
      obtain rfl := Option.some.inj (hp.symm.trans hp')
      obtain rfl := Option.some.inj (hq.symm.trans hq')
      exact .rel _ _ ⟨List.mem_of_getElem? hp, List.mem_of_getElem? hq, (isNear_comm ht).mp hnear⟩
  · intro i j p q hp hq h
    have hnear : IsNear tolerance p q := by
      rcases h with h | rfl
      · exact h.2.2
      · exact isNear_self ht p
    rcases Nat.lt_trichotomy i j with hij | rfl | hij
    · exact .symm _ _ (.rel _ _ (.inr (mem_nearPairs_iff.mpr ⟨hij, q, p, hq, hp, hnear⟩)))
    · exact .refl i
    · exact .rel _ _ (.inr (mem_nearPairs_iff.mpr ⟨hij, p, q, hp, hq, (isNear_comm ht).mp hnear⟩))

theorem Tracks.mem_mergers (h : Tracks points sets links) {i j : Nat} {p q : Vec ℝ}
    (hp : points[i]? = some p) (hq : points[j]? = some q)
    (hnear : IsNear tolerance (mean (group points links q)) (mean (group points links p)))
    (hlt : sets.root j < sets.root i) :
    (sets.root i, sets.root j) ∈ mergers tolerance points sets := by
  refine mem_mergers_iff.mpr ⟨?_, ?_, hlt, ?_⟩
  · exact sets.root_mem_leaders (List.getElem?_eq_some_iff.mp hp).1
  · exact sets.root_mem_leaders (List.getElem?_eq_some_iff.mp hq).1
  · rwa [h.centre_eq hp, h.centre_eq hq]

/-- A pass over the forest makes the links of a pass over the points. -/
theorem Tracks.joinAll_mergers (h : Tracks points sets links) (hlinks : IsLinkage points links)
    (ht : 0 < tolerance) :
    Tracks points (sets.joinAll (mergers tolerance points sets)).2
      (pass tolerance points links) := by
  have hcovers := covers_mergers h.size_eq tolerance
  have hsize : (sets.joinAll (mergers tolerance points sets)).2.parents.size = points.length := by
    rw [DisjointSet.size_joinAll_snd, h.size_eq]
  refine ⟨hsize, fun i j p q hp hq => ?_⟩
  rw [DisjointSet.root_joinAll_snd_eq_iff hcovers]
  refine eqvGen_iff_of_getElem? ?_ ?_ ?_ ?_ hp hq
  · rintro i j (hroot | hpair)
    · rw [← h.size_eq]
      exact DisjointSet.lt_size_iff_of_root_eq hroot
    · rw [← h.size_eq]
      exact iff_of_true (hcovers _ hpair).1 (hcovers _ hpair).2
  · rintro p q (hpq | ⟨hp, hq, _⟩)
    · exact hlinks.mem_iff p q hpq
    · exact iff_of_true hp hq
  · rintro i j p q hp hq (hroot | hpair)
    · exact .rel _ _ (.inl ((h.root_eq_iff i j p q hp hq).mp hroot))
    · rcases mem_mergers_iff.mp hpair with ⟨hi, hj, _, hnear⟩
      have hcentrei := h.centre_eq hp
      have hcentrej := h.centre_eq hq
      rw [(DisjointSet.mem_leaders_iff.mp hi).2] at hcentrei
      rw [(DisjointSet.mem_leaders_iff.mp hj).2] at hcentrej
      rw [hcentrei, hcentrej] at hnear
      exact .rel _ _ (.inr ⟨List.mem_of_getElem? hp, List.mem_of_getElem? hq,
        (isNear_comm ht).mp hnear⟩)
  · intro i j p q hp hq hpq
    have toRoot (k : Nat) : EqvGen (fun i j => sets.root i = sets.root j ∨
        (i, j) ∈ mergers tolerance points sets) k (sets.root k) :=
      .rel _ _ (.inl (sets.root_root k).symm)
    rcases hpq with (hpq | ⟨_, _, hnear⟩) | rfl
    · exact .rel _ _ (.inl ((h.root_eq_iff i j p q hp hq).mpr hpq))
    · refine .trans _ _ _ (toRoot i) (.trans _ _ _ ?_ (toRoot j).symm)
      rcases Nat.lt_trichotomy (sets.root i) (sets.root j) with hlt | heq | hlt
      · exact .symm _ _ (.rel _ _ (.inr (h.mem_mergers hq hp hnear hlt)))
      · rw [heq]
        exact .refl _
      · exact .rel _ _ (.inr (h.mem_mergers hp hq ((isNear_comm ht).mp hnear) hlt))
    · exact .rel _ _ (.inl ((h.root_eq_iff i j p p hp hq).mpr (hlinks.equivalence.refl p)))

/-- After the last pass, near means belong to one set. -/
theorem Tracks.root_eq_of_isNear (h : Tracks points sets links) (ht : 0 < tolerance)
    (hsettled : mergers tolerance points sets = []) {i j : Nat} {p q : Vec ℝ}
    (hp : points[i]? = some p) (hq : points[j]? = some q)
    (hnear : IsNear tolerance (mean (group points links p)) (mean (group points links q))) :
    sets.root i = sets.root j := by
  by_contra hne
  rcases Nat.lt_or_gt_of_ne hne with hlt | hlt
  · have hmem := h.mem_mergers hq hp hnear hlt
    rw [hsettled] at hmem
    cases hmem
  · have hmem := h.mem_mergers hp hq ((isNear_comm ht).mp hnear) hlt
    rw [hsettled] at hmem
    cases hmem

theorem Tracks.pass_eq (h : Tracks points sets links) (hlinks : IsLinkage points links)
    (ht : 0 < tolerance) (hsettled : mergers tolerance points sets = []) :
    pass tolerance points links = links := by
  apply hlinks.pass_eq
  intro p hp q hq hnear
  rcases List.mem_iff_getElem?.mp hp with ⟨i, hi⟩
  rcases List.mem_iff_getElem?.mp hq with ⟨j, hj⟩
  exact (h.root_eq_iff i j p q hi hj).mp (h.root_eq_of_isNear ht hsettled hi hj hnear)

/-- Clustering ends with the sets of the points that are linked in the end. -/
theorem exists_tracks_clusterPoints_eq (ht : 0 < tolerance) (points : List (Vec ℝ)) :
    ∃ t : DisjointSet, Settled tolerance points t ∧ Tracks points t (final tolerance points) ∧
      clusterPoints tolerance points = ofSets t points := by
  -- The forest before a pass shows the links after some number of passes over the points.
  have hkept : KeptByPasses tolerance points fun s =>
      ∃ k, Tracks points s ((pass tolerance points)^[k] (first tolerance points)) := by
    rintro s _ ⟨k, hk⟩
    refine ⟨k + 1, ?_⟩
    rw [Function.iterate_succ_apply']
    exact hk.joinAll_mergers (isLinkage_iterate tolerance points k) ht
  rcases exists_clusterPoints_eq hkept ⟨0, tracks_firstSets ht points⟩ with ⟨t, ht', ⟨k, hk⟩, heq⟩
  have hstable := hk.pass_eq (isLinkage_iterate tolerance points k) ht ht'.mergers_eq
  rw [← final_eq_iterate hstable] at hk
  exact ⟨t, ht', hk, heq⟩

/-! ## Homes -/

theorem getD_centroids_clusterPoints (ht : 0 < tolerance) {i : Nat} {p : Vec ℝ}
    (hp : points[i]? = some p) :
    (clusterPoints tolerance points).centroids.getD
      ((clusterPoints tolerance points).assignment.getD i 0) .zero = home tolerance points p := by
  rcases exists_tracks_clusterPoints_eq ht points with ⟨t, _, htracks, heq⟩
  have hi : i < points.length := (List.getElem?_eq_some_iff.mp hp).1
  have hroot := t.root_mem_leaders hi
  rw [heq, centroids_ofSets, List.getD_eq_getElem?_getD, List.getD_eq_getElem?_getD,
    getElem?_assignment_ofSets hi, Option.getD_some, List.getElem?_map,
    List.getElem?_eq_getElem (List.idxOf_lt_length_of_mem hroot), List.getElem_idxOf,
    Option.map_some, Option.getD_some, htracks.centre_eq hp, home]

/-- Two points have one cluster when they have one home, since the centroids of two clusters are
apart. -/
theorem getD_assignment_clusterPoints_eq_iff (ht : 0 < tolerance) {i j : Nat} {p q : Vec ℝ}
    (hp : points[i]? = some p) (hq : points[j]? = some q) :
    (clusterPoints tolerance points).assignment.getD i 0 =
        (clusterPoints tolerance points).assignment.getD j 0 ↔
      home tolerance points p = home tolerance points q := by
  constructor
  · intro h
    rw [← getD_centroids_clusterPoints ht hp, ← getD_centroids_clusterPoints ht hq, h]
  · intro h
    rcases exists_tracks_clusterPoints_eq ht points with ⟨t, hsettled, htracks, heq⟩
    have hi : i < points.length := (List.getElem?_eq_some_iff.mp hp).1
    have hj : j < points.length := (List.getElem?_eq_some_iff.mp hq).1
    have hnear : IsNear tolerance (mean (group points (final tolerance points) p))
        (mean (group points (final tolerance points) q)) := by
      rw [← home, ← home, h]
      exact isNear_self ht _
    have hroot := htracks.root_eq_of_isNear ht hsettled.mergers_eq hp hq hnear
    rw [heq, List.getD_eq_getElem?_getD, List.getD_eq_getElem?_getD,
      getElem?_assignment_ofSets hi, getElem?_assignment_ofSets hj, hroot]

end Clustering

end Roadworks
