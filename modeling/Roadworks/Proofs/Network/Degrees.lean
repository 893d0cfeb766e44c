import Mathlib.Algebra.Ring.Nat
import Roadworks.Proofs.Network.Components
/-! # Degrees and counts

The kind of an intersection is one for its number of roads. Every road adds to the degree of two
nodes, and joins two components at most. -/

namespace Roadworks

variable {α : Type}

namespace Network

/-! ## Roads at nodes -/

theorem countP_touches {e : Edge α} {n : Nat} (htail : e.tail < n) (hhead : e.head < n)
    (hne : e.tail ≠ e.head) : (List.range n).countP (fun i => e.touches i) = 2 := by
  have hperm : ((List.range n).filter fun i => e.touches i).Perm [e.tail, e.head] := by
    refine (List.perm_ext_iff_of_nodup (List.nodup_range.filter _) (by simp [hne])).mpr fun i => ?_
    rw [List.mem_filter, List.mem_range, Edge.touches_iff]
    simp
    omega
  rw [List.countP_eq_length_filter, hperm.length_eq]
  rfl

theorem sum_map_ite (l : List Nat) (p : Nat → Bool) :
    (l.map fun i => if p i then 1 else 0).sum = l.countP p := by
  induction l with
  | nil => rfl
  | cons i l ih => rw [List.map_cons, List.sum_cons, ih, List.countP_cons, Nat.add_comm]

/-- Every road is listed by two nodes. -/
theorem sum_length_incidentTo {edges : List (Edge α)} {n : Nat}
    (h : ∀ e ∈ edges, e.tail < n ∧ e.head < n ∧ e.tail ≠ e.head) :
    ((List.range n).map fun i => (incidentTo edges i).length).sum = 2 * edges.length := by
  simp only [length_incidentTo]
  induction edges with
  | nil => simp
  | cons e edges ih =>
      obtain ⟨⟨htail, hhead, hne⟩, hrest⟩ := List.forall_mem_cons.mp h
      simp only [List.countP_cons, List.sum_map_add, ih hrest, sum_map_ite,
        countP_touches htail hhead hne, List.length_cons]
      omega

/-! ## Components -/

/-- Every road joins two components at most. -/
theorem length_nodes_le {n : Network α} (h : n.JoinsNodes) :
    n.nodes.length ≤ n.components.length + n.edges.length := by
  have hle := DisjointSet.length_leaders_le_joinAll h.covers n.nodes.length
  rw [DisjointSet.leaders_new, List.length_range, List.length_map] at hle
  rw [length_components]
  exact hle

end Network

variable [Scalar α]

/-! ## Kinds -/

namespace JunctionRules

variable {rules : JunctionRules α} {l : List (Vec α)} {k : IntersectionType}

/-- The number of roads is one that an intersection of the kind can have. -/
def Admits (rules : JunctionRules α) : IntersectionType → Nat → Prop
  | .pass, degree => degree = 2
  | .threeWay, degree => degree = 3
  | .fourWay, degree => degree = 4
  | .roundabout, degree => max 3 rules.minRoundaboutDegree.toNat ≤ degree

/-- Roads in the given directions form a roundabout: there are roundabouts, the roads are enough for
one, and they are spread evenly. -/
def FormsRoundabout (rules : JunctionRules α) (l : List (Vec α)) : Prop :=
  rules.roundaboutRadius.isSome = true ∧ max 3 rules.minRoundaboutDegree.toNat ≤ l.length ∧
    rules.isCircular l = true

theorem classify_of_formsRoundabout (h : rules.FormsRoundabout l) :
    rules.classify l = some .roundabout := by
  obtain ⟨hradius, hdegree, hcircular⟩ := h
  unfold classify
  rw [if_neg (by omega), if_pos ⟨hradius, by omega, hcircular⟩]

/-- The kind of roads that form no roundabout: it goes by their number, and by the bend of two. -/
def plainKind (rules : JunctionRules α) : List (Vec α) → Option IntersectionType
  | [v, w] => if rules.isPass v w then some .pass else none
  | [_, _, _] => some .threeWay
  | [_, _, _, _] => some .fourWay
  | _ => none

theorem classify_of_not_formsRoundabout (h : ¬ rules.FormsRoundabout l) :
    rules.classify l = rules.plainKind l := by
  have hround : ¬ (rules.roundaboutRadius.isSome = true ∧
      max rules.minRoundaboutDegree.toNat 3 ≤ l.length ∧ rules.isCircular l = true) := by
    rwa [FormsRoundabout, Nat.max_comm] at h
  unfold classify
  rw [if_neg hround]
  clear h hround
  match l with
  | [] | [_] | [_, _] | [_, _, _] | [_, _, _, _] => rfl
  | _ :: _ :: _ :: _ :: _ :: _ => exact if_neg (by simp)

theorem formsRoundabout_of_classify (h : rules.classify l = some .roundabout) :
    rules.FormsRoundabout l := by
  by_contra hround
  rw [classify_of_not_formsRoundabout hround] at h
  match l with
  | [v, w] =>
      obtain ⟨_, heq⟩ := (Option.ite_none_right_eq_some ..).mp h
      cases heq
  | [] | [_] | [_, _, _] | [_, _, _, _] | _ :: _ :: _ :: _ :: _ :: _ => cases h

theorem admits_of_classify (h : rules.classify l = some k) : rules.Admits k l.length := by
  by_cases hround : rules.FormsRoundabout l
  · rw [classify_of_formsRoundabout hround] at h
    cases h
    exact hround.2.1
  · rw [classify_of_not_formsRoundabout hround] at h
    match l with
    | [v, w] =>
        obtain ⟨_, heq⟩ := (Option.ite_none_right_eq_some ..).mp h
        cases heq
        rfl
    | [_, _, _] | [_, _, _, _] =>
        cases h
        rfl
    | [] | [_] | _ :: _ :: _ :: _ :: _ :: _ => cases h

theorem classify_eq_none_iff :
    rules.classify l = none ↔ l.length ≤ 1 ∨
      (∃ v w, l = [v, w] ∧ rules.isPass v w = false) ∨
      5 ≤ l.length ∧ ¬ rules.FormsRoundabout l := by
  by_cases hround : rules.FormsRoundabout l
  · have hdegree := hround.2.1
    rw [classify_of_formsRoundabout hround]
    simp only [reduceCtorEq, hround, not_true, and_false, or_false, false_iff]
    rintro (hone | ⟨v, w, rfl, _⟩)
    · omega
    · simp at hdegree
  · rw [classify_of_not_formsRoundabout hround]
    match l with
    | [v, w] => simp [plainKind]
    | [_, _, _] | [_, _, _, _] => simp [plainKind]
    | [] | [_] => simp [plainKind]
    | _ :: _ :: _ :: _ :: _ :: _ => simp [plainKind, hround]

end JunctionRules

/-- Nodes are told apart by degree and kind into six sorts. -/
theorem countP_kinds (l : List (Nat × Option IntersectionType)) :
    l.countP (fun v => v.2 == none && decide (v.1 ≤ 1)) + l.countP (fun v => v.2 == some .pass) +
      l.countP (fun v => v.2 == some .threeWay) + l.countP (fun v => v.2 == some .fourWay) +
      l.countP (fun v => v.2 == some .roundabout) +
      l.countP (fun v => v.2 == none && decide (1 < v.1)) = l.length := by
  induction l with
  | nil => rfl
  | cons v l ih =>
      obtain ⟨degree, kind⟩ := v
      have hone : (if (kind == none && decide (degree ≤ 1)) = true then 1 else 0) +
          (if (kind == some .pass) = true then 1 else 0) +
          (if (kind == some .threeWay) = true then 1 else 0) +
          (if (kind == some .fourWay) = true then 1 else 0) +
          (if (kind == some .roundabout) = true then 1 else 0) +
          (if (kind == none && decide (1 < degree)) = true then 1 else 0) = 1 := by
        cases kind with
        | none => by_cases h : degree ≤ 1 <;> simp [h]
        | some kind => cases kind <;> rfl
      simp only [List.countP_cons, List.length_cons]
      omega

namespace Network

variable {n : Network α}

/-- The directions in which the roads of a node leave it. -/
def approaches (n : Network α) (i : Nat) : List (Vec α) :=
  match n.nodes[i]? with
  | none => []
  | some v => v.incident.filterMap (n.approach i)

theorem intersectionType_eq_classify {i : Nat} {v : Node α} (hv : n.nodes[i]? = some v) :
    n.intersectionType i = n.rules.classify (n.approaches i) := by
  simp only [intersectionType, approaches, hv]

theorem length_approaches_le {i : Nat} {v : Node α} (hv : n.nodes[i]? = some v) :
    (n.approaches i).length ≤ v.degree := by
  simp only [approaches, hv]
  exact List.length_filterMap_le _ _

theorem intersectionType_eq_none {i : Nat} {v : Node α} (hv : n.nodes[i]? = some v)
    (hdegree : v.degree ≤ 1) : n.intersectionType i = none := by
  rw [intersectionType_eq_classify hv, JunctionRules.classify_eq_none_iff]
  exact .inl ((length_approaches_le hv).trans hdegree)

/-! ## Degrees -/

theorem degree_eq (h : n.validate = .ok ()) {i : Nat} {v : Node α} (hv : n.nodes[i]? = some v) :
    v.degree = (incidentTo n.edges i).length := by
  obtain ⟨_, hlists, _⟩ := validate_eq_ok_iff.mp h
  rw [Node.degree, ← hlists i v hv, List.length_mergeSort]

/-- The degrees add up to twice the number of roads. -/
theorem sum_degree (h : n.validate = .ok ()) :
    (n.nodes.map Node.degree).sum = 2 * n.edges.length := by
  have hdegrees : n.nodes.map Node.degree =
      (List.range n.nodes.length).map fun i => (incidentTo n.edges i).length := by
    apply List.ext_getElem?
    intro i
    rw [List.getElem?_map, List.getElem?_map]
    cases hv : n.nodes[i]? with
    | none =>
        have hi := List.getElem?_eq_none_iff.mp hv
        rw [List.getElem?_eq_none (by simpa using hi)]
        rfl
    | some v =>
        have hi := (List.getElem?_eq_some_iff.mp hv).1
        rw [List.getElem?_range hi, Option.map_some, Option.map_some, degree_eq h hv]
  rw [hdegrees]
  exact sum_length_incidentTo (validate_eq_ok_iff.mp h).1

/-- Dead ends are told by their degree alone. -/
theorem deadEnds_eq (n : Network α) :
    n.summary.deadEnds = n.nodes.countP fun v => decide (v.degree ≤ 1) := by
  conv => rhs; rw [← List.zipIdx_map_fst 0 n.nodes, List.countP_map]
  apply List.countP_congr
  rintro ⟨v, i⟩ hmem
  have hv := List.mem_zipIdx_iff_getElem?.mp hmem
  simp only [Function.comp_apply, Bool.and_eq_true, decide_eq_true_eq, and_iff_right_iff_imp]
  intro hdegree
  rw [intersectionType_eq_none hv hdegree]
  rfl

/-- Every node is counted once. -/
theorem sum_kinds (n : Network α) :
    n.summary.deadEnds + n.summary.passThroughs + n.summary.tJunctions + n.summary.fourWays +
      n.summary.roundabouts + n.summary.unclassified = n.summary.nodes := by
  have h := countP_kinds (n.nodes.zipIdx.map fun p => (p.1.degree, n.intersectionType p.2))
  simp only [List.countP_map, List.length_map, List.length_zipIdx] at h
  exact h

end Network

end Roadworks
