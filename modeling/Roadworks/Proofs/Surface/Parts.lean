import Roadworks.Proofs.Network.Soundness
import Roadworks.Surface.Build
/-! # What is built for one road and for one node

A build goes through the roads and through the nodes in order. For each of them it makes at most one
surface and at most one warning, which carry its number. -/

namespace Roadworks

/-! ## Lists of numbered parts -/

/-- A list holds the parts of all numbers that have one, in increasing order. -/
structure IsListing {γ : Type} (number : γ → Nat) (part? : Nat → Option γ) (parts : List γ) :
    Prop where
  pairwise : parts.Pairwise fun y z => number y < number z
  filter_eq : ∀ i, parts.filter (fun y => number y == i) = (part? i).toList

namespace IsListing

variable {β γ : Type} {number : γ → Nat} {part? : Nat → Option γ} {parts : List γ}

theorem number_eq (h : IsListing number part? parts) {i : Nat} {y : γ} (hy : part? i = some y) :
    number y = i := by
  have hmem : y ∈ parts.filter fun y => number y == i := by simp [h.filter_eq, hy]
  simpa using (List.mem_filter.mp hmem).2

theorem mem_iff (h : IsListing number part? parts) {y : γ} :
    y ∈ parts ↔ part? (number y) = some y := by
  have hmem : y ∈ parts ↔ y ∈ parts.filter fun z => number z == number y := by simp
  rw [hmem, h.filter_eq, Option.mem_toList]

theorem exists_mem_iff (h : IsListing number part? parts) {i : Nat} :
    (∃ y ∈ parts, number y = i) ↔ ∃ y, part? i = some y := by
  constructor
  · intro ⟨y, hy, hi⟩
    exact ⟨y, hi ▸ h.mem_iff.mp hy⟩
  · intro ⟨y, hy⟩
    have hi := h.number_eq hy
    exact ⟨y, h.mem_iff.mpr (hi.symm ▸ hy), hi⟩

theorem find?_eq (h : IsListing number part? parts) (i : Nat) :
    parts.find? (fun y => number y == i) = part? i := by
  rw [← List.head?_filter, h.filter_eq]
  cases part? i <;> rfl

end IsListing

/-- Going through a list in order and making at most one part for every place lists the parts. -/
theorem isListing_filterMap_zipIdx {β γ : Type} {f : β → Nat → Option γ} {number : γ → Nat}
    (hnumber : ∀ x i y, f x i = some y → number y = i) (l : List β) :
    IsListing number (fun i => l[i]?.bind fun x => f x i)
      (l.zipIdx.filterMap fun (x, i) => f x i) where
  pairwise := by
    rw [List.pairwise_filterMap]
    have hindices : (l.zipIdx.map (·.2)).Pairwise (· < ·) := by
      rw [List.zipIdx_map_snd]
      exact List.pairwise_lt_range'
    refine (List.pairwise_map.mp hindices).imp ?_
    intro a b hlt y hy z hz
    rwa [hnumber _ _ y hy, hnumber _ _ z hz]
  filter_eq i := by
    -- From the end of the list, so that the numbers of the entries before stay as they are.
    induction l using List.reverseRecOn with
    | nil => rfl
    | append_singleton l x ih =>
        have hlast : ([x].zipIdx l.length).filterMap (fun (x, i) => f x i) =
            (f x l.length).toList := by
          cases h : f x l.length <;> simp [h]
        have hfilter : (f x l.length).toList.filter (fun y => number y == i) =
            if l.length = i then (f x l.length).toList else [] := by
          cases h : f x l.length with
          | none => simp
          | some y => simp [hnumber x _ y h, List.filter_cons]
        rw [List.zipIdx_append, List.filterMap_append, List.filter_append, ih, Nat.zero_add, hlast,
          hfilter]
        by_cases hi : l.length = i
        · simp [← hi]
        · have hget : (l ++ [x])[i]? = l[i]? := by
            rw [List.getElem?_append]
            split
            · rfl
            · rw [List.getElem?_eq_none (by simp; omega), List.getElem?_eq_none (by omega)]
          rw [if_neg hi, List.append_nil, hget]

variable {α : Type}

/-! ## What a warning is about -/

namespace BuildWarning

/-- The number of the road or node that a warning is about. -/
def subject : BuildWarning α → Nat
  | .missingStyle i _ | .invalidStyle i _ _ | .segmentTooShort i _ => i
  | .unclassifiedJunction i _ | .degenerateIsland i => i

/-- Warnings about styles come first, then those about nodes, then those about roads that are too
short. -/
def stage : BuildWarning α → Nat
  | .missingStyle _ _ | .invalidStyle _ _ _ => 0
  | .unclassifiedJunction _ _ | .degenerateIsland _ => 1
  | .segmentTooShort _ _ => 2

theorem stage_lt (w : BuildWarning α) : w.stage < 3 := by
  cases w <;> simp [stage]

/-- The warning that there is no surface, if there is none. -/
def ofOutcome? : Except (BuildWarning α) (RoadSurface α) → Option (BuildWarning α)
  | .error w => some w
  | .ok _ => none

@[simp] theorem ofOutcome?_eq_some_iff {x : Except (BuildWarning α) (RoadSurface α)}
    {w : BuildWarning α} : ofOutcome? x = some w ↔ x = .error w := by
  cases x <;> simp [ofOutcome?]

end BuildWarning

@[simp] theorem toOption_eq_some_iff {ε β : Type} {x : Except ε β} {b : β} :
    x.toOption = some b ↔ x = .ok b := by
  cases x <;> simp [Except.toOption]

variable [Scalar α]

/-! ## Styles -/

namespace Network

variable {n : Network α} {resolver : StyleResolver α}

/-- The styles in effect on all roads. -/
def styles (n : Network α) (resolver : StyleResolver α) : List (Resolved α) :=
  n.edges.map (Resolved.ofEdge resolver)

theorem getElem?_styles (n : Network α) (resolver : StyleResolver α) (k : Nat) :
    (n.styles resolver)[k]? = n.edges[k]?.map (Resolved.ofEdge resolver) :=
  List.getElem?_map

/-- The warning about the style of road number `i`, if there is one. -/
def styleWarning? (n : Network α) (resolver : StyleResolver α) (i : Nat) :
    Option (BuildWarning α) :=
  n.edges[i]?.bind fun e => Resolved.warning? resolver e i

theorem subject_stage_of_styleWarning {e : Edge α} {i : Nat} {w : BuildWarning α}
    (h : Resolved.warning? resolver e i = some w) : w.subject = i ∧ w.stage = 0 := by
  unfold Resolved.warning? at h
  split at h
  · cases h
    exact ⟨rfl, rfl⟩
  · obtain ⟨fault, _, rfl⟩ := Option.map_eq_some_iff.mp h
    exact ⟨rfl, rfl⟩

end Network

/-! ## Nodes -/

namespace SizedPatch

variable {n : Network α} {styles : List (Resolved α)} {v : Node α} {i : Nat}

theorem ofNode_eq_some_iff {p : SizedPatch α} :
    ofNode n styles v i = some p ↔ isNeeded (n.intersectionType i) v.degree = true ∧
      p = ⟨i, n.intersectionType i, shapeOf n.rules (widest styles v.incident)
        (n.intersectionType i)⟩ := by
  rw [ofNode, Option.ite_none_right_eq_some, Option.some.injEq]
  exact and_congr_right fun _ => eq_comm

/-- The warning about node number `i`, if there is one: it has no known shape, or no room for the
island of its roundabout. -/
def warning? (n : Network α) (styles : List (Resolved α)) (v : Node α) (i : Nat) :
    Option (BuildWarning α) :=
  match n.intersectionType i with
  | none => if 2 ≤ v.degree then some (.unclassifiedJunction i v.degree) else none
  | some .roundabout =>
    n.rules.roundaboutRadius.bind fun radius =>
      if radius - widest styles v.incident ≤ 0.0 then some (.degenerateIsland i) else none
  | some _ => none

/-- No node is warned about twice. -/
theorem warnings_eq (n : Network α) (styles : List (Resolved α)) (v : Node α) (i : Nat) :
    warnings n styles v i = (warning? n styles v i).toList := by
  unfold warnings warning? isNeeded islandRoom
  cases n.intersectionType i with
  | none => by_cases h : 2 ≤ v.degree <;> simp [h]
  | some kind =>
      cases kind with
      | roundabout =>
          cases n.rules.roundaboutRadius with
          | none => simp
          | some radius =>
              by_cases h : radius - widest styles v.incident ≤ 0.0 <;>
                simp [IntersectionType.isJunction, h]
      | pass => simp [IntersectionType.isJunction]
      | threeWay => simp
      | fourWay => simp

theorem subject_stage_of_warning? {w : BuildWarning α} (h : warning? n styles v i = some w) :
    w.subject = i ∧ w.stage = 1 := by
  unfold warning? at h
  split at h
  · split at h
    · cases h
      exact ⟨rfl, rfl⟩
    · cases h
  · obtain ⟨radius, _, h⟩ := Option.bind_eq_some_iff.mp h
    split at h
    · cases h
      exact ⟨rfl, rfl⟩
    · cases h
  · cases h

end SizedPatch

namespace Network

variable {n : Network α} {resolver : StyleResolver α}

/-- The warning about node number `i`, if there is one. -/
def nodeWarning? (n : Network α) (resolver : StyleResolver α) (i : Nat) :
    Option (BuildWarning α) :=
  n.nodes[i]?.bind fun v => SizedPatch.warning? n (n.styles resolver) v i

/-- The patch of node number `i`, if it gets one. -/
def patch? (n : Network α) (resolver : StyleResolver α) (i : Nat) : Option (SizedPatch α) :=
  n.nodes[i]?.bind fun v => SizedPatch.ofNode n (n.styles resolver) v i

/-- The patches of all nodes that get one. -/
def patches (n : Network α) (resolver : StyleResolver α) : List (SizedPatch α) :=
  n.nodes.zipIdx.filterMap fun (v, i) => SizedPatch.ofNode n (n.styles resolver) v i

theorem isListing_patches (n : Network α) (resolver : StyleResolver α) :
    IsListing SizedPatch.node (n.patch? resolver) (n.patches resolver) := by
  have hnode : ∀ v i p, SizedPatch.ofNode n (n.styles resolver) v i = some p → p.node = i := by
    intro v i p hp
    rw [(SizedPatch.ofNode_eq_some_iff.mp hp).2]
  exact isListing_filterMap_zipIdx hnode n.nodes

theorem trim_patches (n : Network α) (resolver : StyleResolver α) (i : Nat) :
    RoadSurface.trim (n.patches resolver) i =
      ((n.patch? resolver i).map (·.shape.radius)).getD 0.0 := by
  rw [RoadSurface.trim, (n.isListing_patches resolver).find?_eq]

end Network

/-! ## Roads -/

namespace RoadSurface

variable {o : BuildOptions α} {n : Network α} {styles : List (Resolved α)}
  {patches : List (SizedPatch α)} {e : Edge α} {i : Nat}

/-- A road between two nodes has a surface, unless its patches leave nothing of it. -/
theorem ofEdge?_cases {v w : Node α} {style : Resolved α} (hv : n.nodes[e.tail]? = some v)
    (hw : n.nodes[e.head]? = some w) (hstyle : styles[i]? = some style) :
    let rest := (Polyline.line v.position w.position).trimmed (trim patches e.tail)
      (trim patches e.head)
    (rest = none ∧
        ofEdge? o n styles patches e i =
          some (.error (.segmentTooShort i (v.position.dist w.position)))) ∨
      (rest ≠ none ∧ ∃ s, ofEdge? o n styles patches e i = some (.ok s)) := by
  simp only [ofEdge?, hv, hw, hstyle, bind, Option.bind_some]
  split
  · next h => exact .inl ⟨h, rfl⟩
  · next path h => exact .inr ⟨by simp [h], _, rfl⟩

theorem segment_of_ofEdge? {s : RoadSurface α}
    (h : ofEdge? o n styles patches e i = some (.ok s)) :
    s.segment = i ∧ s.styleClass = e.styleClass := by
  simp only [ofEdge?, bind, Option.bind_eq_some_iff] at h
  obtain ⟨v, _, w, _, style, _, h⟩ := h
  split at h
  · cases h
  · cases h
    exact ⟨rfl, rfl⟩

theorem subject_stage_of_ofEdge? {w : BuildWarning α}
    (h : ofEdge? o n styles patches e i = some (.error w)) : w.subject = i ∧ w.stage = 2 := by
  simp only [ofEdge?, bind, Option.bind_eq_some_iff] at h
  obtain ⟨v, _, v', _, style, _, h⟩ := h
  split at h
  · cases h
    exact ⟨rfl, rfl⟩
  · cases h

end RoadSurface

namespace BuildOptions

variable {o : BuildOptions α} {n : Network α} {resolver : StyleResolver α}

/-- What is built for road number `i`, or the warning that nothing is. -/
def outcome? (o : BuildOptions α) (n : Network α) (resolver : StyleResolver α) (i : Nat) :
    Option (Except (BuildWarning α) (RoadSurface α)) :=
  n.edges[i]?.bind fun e => RoadSurface.ofEdge? o n (n.styles resolver) (n.patches resolver) e i

/-- The surface over node number `i`, if it gets one. -/
def junction? (o : BuildOptions α) (n : Network α) (resolver : StyleResolver α) (i : Nat) :
    Option (JunctionSurface α) :=
  n.nodes[i]?.bind fun v => (SizedPatch.ofNode n (n.styles resolver) v i).map fun p =>
    Patch.build i p.kind v.position v.elevation p.shape o.islandHeight (max o.arcSegments.toNat 3)

/-- In a sound network something is made for every road: its surface, or the report that the patches
over its ends leave nothing of it. -/
theorem outcome?_cases (o : BuildOptions α) (resolver : StyleResolver α) (h : n.validate = .ok ())
    {i : Nat} {e : Edge α} (he : n.edges[i]? = some e) :
    ∃ a b, n.endpoints i = some (a, b) ∧
      let rest := (Polyline.line a b).trimmed (RoadSurface.trim (n.patches resolver) e.tail)
        (RoadSurface.trim (n.patches resolver) e.head)
      (rest = none ∧ o.outcome? n resolver i = some (.error (.segmentTooShort i (a.dist b)))) ∨
      (rest ≠ none ∧ ∃ s, o.outcome? n resolver i = some (.ok s)) := by
  obtain ⟨hjoins, _⟩ := Network.validate_eq_ok_iff.mp h
  obtain ⟨htail, hhead, _⟩ := hjoins e (List.mem_of_getElem? he)
  have hv := List.getElem?_eq_getElem htail
  have hw := List.getElem?_eq_getElem hhead
  have hstyle : (n.styles resolver)[i]? = some (Resolved.ofEdge resolver e) := by
    rw [Network.getElem?_styles, he, Option.map_some]
  refine ⟨n.nodes[e.tail].position, n.nodes[e.head].position, ?_, ?_⟩
  · simp [Network.endpoints, he, hv, hw]
  · rw [outcome?, he, Option.bind_some]
    exact RoadSurface.ofEdge?_cases hv hw hstyle

theorem segment_of_outcome? {i : Nat} {e : Edge α} {s : RoadSurface α}
    (he : n.edges[i]? = some e) (hs : o.outcome? n resolver i = some (.ok s)) :
    s.segment = i ∧ s.styleClass = e.styleClass := by
  rw [outcome?, he, Option.bind_some] at hs
  exact RoadSurface.segment_of_ofEdge? hs

theorem node_of_junction? {i : Nat} {j : JunctionSurface α}
    (h : o.junction? n resolver i = some j) : j.node = i ∧ j.kind = n.intersectionType i := by
  obtain ⟨v, _, h⟩ := Option.bind_eq_some_iff.mp h
  obtain ⟨p, hp, rfl⟩ := Option.map_eq_some_iff.mp h
  rw [(SizedPatch.ofNode_eq_some_iff.mp hp).2]
  exact ⟨rfl, rfl⟩

end BuildOptions

end Roadworks
