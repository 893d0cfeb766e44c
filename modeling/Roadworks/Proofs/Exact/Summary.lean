import Roadworks.Proofs.Exact.Directions
import Roadworks.Proofs.Exact.Drawing
import Roadworks.Proofs.Network.Degrees
/-! # What a summary says about a network

The nodes of a network that passes its check lie apart, so every road leaves its nodes in some
direction and none is missed when the kind of a node is told. -/

namespace Roadworks

open Real

/-! ## Bends -/

/-- By how much a road bends that leaves a point in two directions. -/
noncomputable def bend (v w : Vec ℝ) : ℝ := π - arccos (v.dot w)

theorem Vec.angleTo_eq {v w : Vec ℝ} (hv : v.norm = 1) (hw : w.norm = 1) :
    v.angleTo w = arccos (v.dot w) := by
  obtain ⟨hlow, hhigh⟩ := abs_le.mp (abs_dot_le_one hv hw)
  rw [angleTo, hv, hw, mul_one, div_one, decimal_one, Scalar.clamp_of_mem hlow hhigh]
  rfl

theorem radians_eq (degrees : ℝ) : Scalar.radians degrees = degrees * (π / 180) := by
  have hhalf : (180.0 : ℝ) = 180 := by norm_num
  rw [Scalar.radians, hhalf]
  rfl

theorem JunctionRules.isPass_eq_false_iff {rules : JunctionRules ℝ} {v w : Vec ℝ}
    (hv : v.norm = 1) (hw : w.norm = 1) :
    rules.isPass v w = false ↔ rules.passMaxBend * (π / 180) < bend v w := by
  rw [isPass, decide_eq_false_iff_not, Vec.angleTo_eq hv hw, radians_eq, not_le]
  rfl

/-! ## Directions of roads -/

theorem directionOf_eq_some_iff {w u : Vec ℝ} :
    directionOf w = some u ↔ w ≠ 0 ∧ w.unit = u := by
  rw [directionOf, decimal_zero, Option.ite_none_right_eq_some, Vec.norm2_pos_iff,
    Option.some.injEq]

theorem directionOf_sub {a b : Vec ℝ} (h : a ≠ b) : directionOf (b - a) = some (b - a).unit :=
  directionOf_eq_some_iff.mpr ⟨sub_ne_zero.mpr h.symm, rfl⟩

theorem directionOf_of_norm {w u : Vec ℝ} (hw : w = u) (hu : u.norm = 1) :
    directionOf w = some u := by
  refine directionOf_eq_some_iff.mpr ⟨?_, by rw [hw, Vec.unit_eq_self hu]⟩
  rw [hw, ← Vec.norm_pos_iff, hu]
  exact one_pos

namespace Network

variable {n : Network ℝ}

theorem norm_of_approach {i k : Nat} {u : Vec ℝ} (h : n.approach i k = some u) : u.norm = 1 := by
  simp only [approach, Option.bind_eq_bind, Option.bind_eq_some_iff] at h
  obtain ⟨_, _, _, _, _, _, _, _, hdirection⟩ := h
  obtain ⟨hne, rfl⟩ := directionOf_eq_some_iff.mp hdirection
  exact Vec.norm_unit hne

theorem norm_of_mem_approaches {i : Nat} {u : Vec ℝ} (hu : u ∈ n.approaches i) : u.norm = 1 := by
  unfold approaches at hu
  split at hu
  · cases hu
  · obtain ⟨k, _, hk⟩ := List.mem_filterMap.mp hu
    exact norm_of_approach hk

/-! ## Nodes that lie apart -/

theorem validate_ofParts {name : String} {tolerance : ℝ} {rules : JunctionRules ℝ}
    {places : List (Vec ℝ × ℝ)} {edges : List (Edge ℝ)} {dropped : List DroppedSegment}
    (ht : 0 < tolerance)
    (hjoins : (ofParts name tolerance rules places edges dropped).JoinsNodes)
    (hfar : (places.map (·.1)).Pairwise fun p q => tolerance < p.dist q) :
    (ofParts name tolerance rules places edges dropped).validate = .ok () := by
  refine IsCoherent.validate_eq_ok ⟨hjoins, listsRoads_ofParts _ _ _ _ _ _, ?_⟩
  rw [map_position_nodes_ofParts]
  refine nearPairs_eq_nil_iff.mpr (hfar.imp fun hlt hnear => ?_)
  exact ((isNear_iff ht).mp hnear).not_gt hlt

/-- Different nodes of a network that passes its check lie at different positions. -/
theorem positionAt_ne (h : n.validate = .ok ()) (ht : 0 < n.mergeTolerance) {i j : Nat}
    (hi : i < n.nodes.length) (hj : j < n.nodes.length) (hne : i ≠ j) :
    n.positionAt i ≠ n.positionAt j := by
  obtain ⟨_, _, hnear⟩ := validate_eq_ok_iff.mp h
  have hpairs := List.pairwise_iff_getElem.mp (nearPairs_eq_nil_iff.mp hnear)
  simp only [List.length_map, List.getElem_map] at hpairs
  intro heq
  rw [positionAt_eq (List.getElem?_eq_getElem hi), positionAt_eq (List.getElem?_eq_getElem hj)]
    at heq
  rcases Nat.lt_or_gt_of_ne hne with hlt | hlt
  · exact hpairs i j hi hj hlt (heq ▸ isNear_self ht _)
  · exact hpairs j i hj hi hlt (heq ▸ isNear_self ht _)

theorem length_approaches (h : n.validate = .ok ()) (ht : 0 < n.mergeTolerance) {i : Nat}
    {v : Node ℝ} (hv : n.nodes[i]? = some v) : (n.approaches i).length = v.degree := by
  have hjoins := (validate_eq_ok_iff.mp h).1
  simp only [approaches, hv]
  refine List.filterMap_length_eq_length.mpr fun k hk => ?_
  obtain ⟨e, he, htouches⟩ := (mem_incident_iff h hv).mp hk
  obtain ⟨htail, hhead, hne⟩ := hjoins e (List.mem_of_getElem? he)
  rcases Edge.touches_iff.mp htouches with rfl | rfl
  · rw [hjoins.approach_tail he, directionOf_sub (positionAt_ne h ht htail hhead hne),
      Option.isSome_some]
  · rw [hjoins.approach_head he, directionOf_sub (positionAt_ne h ht hhead htail hne.symm),
      Option.isSome_some]

/-! ## Counts -/

/-- Kinds, degrees, counts and lengths of a network fit each other. -/
structure AddsUp (n : Network ℝ) : Prop where
  length_approaches : ∀ (i : Nat) (v : Node ℝ), n.nodes[i]? = some v →
    (n.approaches i).length = v.degree
  admits : ∀ (i : Nat) (v : Node ℝ) (k : IntersectionType), n.nodes[i]? = some v →
    n.intersectionType i = some k → n.rules.Admits k v.degree
  intersectionType_eq_none_iff : ∀ (i : Nat) (v : Node ℝ), n.nodes[i]? = some v →
    (n.intersectionType i = none ↔ v.degree ≤ 1 ∨
      (∃ u w, n.approaches i = [u, w] ∧ n.rules.passMaxBend * (π / 180) < bend u w) ∨
      5 ≤ v.degree ∧ ¬ n.rules.FormsRoundabout (n.approaches i))
  deadEnds_eq : n.summary.deadEnds = n.nodes.countP fun v => decide (v.degree ≤ 1)
  /-- Every node is counted once. -/
  sum_kinds : n.summary.deadEnds + n.summary.passThroughs + n.summary.tJunctions +
    n.summary.fourWays + n.summary.roundabouts + n.summary.unclassified = n.summary.nodes
  sum_degree : (n.nodes.map Node.degree).sum = 2 * n.summary.segments
  totalLength_eq : n.summary.totalLength =
    (n.edges.map fun e => (n.positionAt e.tail).dist (n.positionAt e.head)).sum
  nodes_le : n.summary.nodes ≤ n.summary.components + n.summary.segments

/-- Kinds, degrees, counts and lengths fit each other in every network that passes its check. Its
tolerance is positive, as that of every network that is handed out. -/
theorem addsUp (h : n.validate = .ok ()) (ht : 0 < n.mergeTolerance) : n.AddsUp where
  length_approaches _ _ hv := length_approaches h ht hv
  admits i v k hv hk := by
    rw [← length_approaches h ht hv]
    rw [intersectionType_eq_classify hv] at hk
    exact JunctionRules.admits_of_classify hk
  intersectionType_eq_none_iff i v hv := by
    rw [intersectionType_eq_classify hv, JunctionRules.classify_eq_none_iff,
      length_approaches h ht hv]
    refine or_congr_right (or_congr_left (exists₂_congr fun u w => and_congr_right fun happ => ?_))
    have hmem : u ∈ n.approaches i ∧ w ∈ n.approaches i := by simp [happ]
    exact JunctionRules.isPass_eq_false_iff (norm_of_mem_approaches hmem.1)
      (norm_of_mem_approaches hmem.2)
  deadEnds_eq := deadEnds_eq n
  sum_kinds := sum_kinds n
  sum_degree := sum_degree h
  totalLength_eq := by
    rw [(validate_eq_ok_iff.mp h).1.totalLength_eq, lines, List.map_map]
    rfl
  nodes_le := length_nodes_le (validate_eq_ok_iff.mp h).1

/-- A street that turns left and then meets a street across. -/
noncomputable def bentStreet : Network ℝ :=
  .ofParts "bent" 1 .default
    [(⟨0, 0⟩, 0), (⟨100, 0⟩, 1), (⟨100, 100⟩, 1), (⟨0, 100⟩, 0), (⟨200, 100⟩, 0)]
    [⟨0, 1, 0, "street", 0⟩, ⟨2, 1, 0, "street", 1⟩, ⟨2, 3, 0, "lane", 2⟩, ⟨4, 2, 0, "lane", 3⟩] []

theorem validate_bentStreet : bentStreet.validate = .ok () := by
  refine validate_ofParts one_pos (by simp [JoinsNodes, ofParts]) ?_
  norm_num [Vec.dist_eq, Real.lt_sqrt]

theorem badRadius?_bentStreet : bentStreet.rules.badRadius? = none := by
  simp [JunctionRules.badRadius?, JunctionRules.radii, bentStreet, ofParts, JunctionRules.default,
    Scalar.isFinite]
  norm_num

theorem addsUp_bentStreet :
    bentStreet.validate = .ok () ∧ 0 < bentStreet.mergeTolerance ∧ bentStreet.AddsUp :=
  ⟨validate_bentStreet, one_pos, addsUp validate_bentStreet one_pos⟩

end Network

end Roadworks
