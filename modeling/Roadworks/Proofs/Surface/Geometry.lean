import Roadworks.Proofs.Surface.Parts
/-! # The geometry of a network, number by number

The surfaces of a geometry list what is made for each road and each node, and its warnings list what
is wrong with the styles, with the nodes and with the roads, one after the other. -/

namespace Roadworks

variable {α : Type}

/-- The warning that nothing is left of road number `i`. -/
def BuildWarning.isShortfallOf (i : Nat) : BuildWarning α → Bool
  | .segmentTooShort k _ => k == i
  | _ => false

theorem BuildWarning.isShortfallOf_eq (w : BuildWarning α) (i : Nat) :
    w.isShortfallOf i = (w.stage == 2 && w.subject == i) := by
  cases w <;> simp [isShortfallOf, stage, subject]

namespace Geometry

/-- What a geometry holds for a road: its surfaces, and the warnings that it has none. -/
def treatment (g : Geometry α) (i : Nat) : List (RoadSurface α) × List (BuildWarning α) :=
  (g.roads.filter fun s => s.segment == i, g.warnings.filter (BuildWarning.isShortfallOf i))

/-- The surfaces over a node. -/
def junctionsAt (g : Geometry α) (i : Nat) : List (JunctionSurface α) :=
  g.junctions.filter fun j => j.node == i

/-- The radius of the surface over a node, and zero where there is none. -/
def radiusAt [Scalar α] (g : Geometry α) (i : Nat) : α :=
  ((g.junctions.find? fun j => j.node == i).map (·.radius)).getD 0.0

end Geometry

variable [Scalar α]

/-! ## Three lists of warnings -/

def Network.styleWarnings (n : Network α) (resolver : StyleResolver α) : List (BuildWarning α) :=
  n.edges.zipIdx.filterMap fun (e, i) => Resolved.warning? resolver e i

def Network.nodeWarnings (n : Network α) (resolver : StyleResolver α) : List (BuildWarning α) :=
  n.nodes.zipIdx.filterMap fun (v, i) => SizedPatch.warning? n (n.styles resolver) v i

namespace BuildOptions

def shortfalls (o : BuildOptions α) (n : Network α) (resolver : StyleResolver α) :
    List (BuildWarning α) :=
  n.edges.zipIdx.filterMap fun (e, i) =>
    (RoadSurface.ofEdge? o n (n.styles resolver) (n.patches resolver) e i).bind
      BuildWarning.ofOutcome?

/-- The warnings of a stage. -/
def warningsOf (o : BuildOptions α) (n : Network α) (resolver : StyleResolver α) :
    Nat → List (BuildWarning α)
  | 0 => n.styleWarnings resolver
  | 1 => n.nodeWarnings resolver
  | 2 => o.shortfalls n resolver
  | _ => []

/-- The warning of a stage about road or node number `i`, if there is one. -/
def warning? (o : BuildOptions α) (n : Network α) (resolver : StyleResolver α) :
    Nat → Nat → Option (BuildWarning α)
  | 0, i => n.styleWarning? resolver i
  | 1, i => n.nodeWarning? resolver i
  | 2, i => (o.outcome? n resolver i).bind BuildWarning.ofOutcome?
  | _, _ => none

variable {o : BuildOptions α} {n : Network α} {resolver : StyleResolver α} {w : BuildWarning α}

theorem subject_stage_of_shortfall {e : Edge α} {i : Nat}
    (h : (RoadSurface.ofEdge? o n (n.styles resolver) (n.patches resolver) e i).bind
      BuildWarning.ofOutcome? = some w) : w.subject = i ∧ w.stage = 2 := by
  obtain ⟨x, hx, hw⟩ := Option.bind_eq_some_iff.mp h
  rw [BuildWarning.ofOutcome?_eq_some_iff.mp hw] at hx
  exact RoadSurface.subject_stage_of_ofEdge? hx

theorem isListing_warningsOf (o : BuildOptions α) (n : Network α) (resolver : StyleResolver α)
    (stage : Nat) :
    IsListing BuildWarning.subject (o.warning? n resolver stage)
      (o.warningsOf n resolver stage) := by
  match stage with
  | 0 =>
      exact isListing_filterMap_zipIdx
        (fun _ _ _ h => (Network.subject_stage_of_styleWarning h).1) n.edges
  | 1 =>
      exact isListing_filterMap_zipIdx
        (fun _ _ _ h => (SizedPatch.subject_stage_of_warning? h).1) n.nodes
  | 2 =>
      have houtcome : o.warning? n resolver 2 = fun i => n.edges[i]?.bind fun e =>
          (RoadSurface.ofEdge? o n (n.styles resolver) (n.patches resolver) e i).bind
            BuildWarning.ofOutcome? :=
        funext fun i => Option.bind_assoc ..
      rw [houtcome]
      exact isListing_filterMap_zipIdx
        (fun _ _ _ h => (subject_stage_of_shortfall h).1) n.edges
  | _ + 3 => exact ⟨.nil, fun _ => rfl⟩

theorem stage_of_mem_warningsOf {stage : Nat} (h : w ∈ o.warningsOf n resolver stage) :
    w.stage = stage := by
  match stage with
  | 0 =>
      obtain ⟨⟨e, i⟩, _, h⟩ := List.mem_filterMap.mp h
      exact (Network.subject_stage_of_styleWarning h).2
  | 1 =>
      obtain ⟨⟨v, i⟩, _, h⟩ := List.mem_filterMap.mp h
      exact (SizedPatch.subject_stage_of_warning? h).2
  | 2 =>
      obtain ⟨⟨e, i⟩, _, h⟩ := List.mem_filterMap.mp h
      exact (subject_stage_of_shortfall h).2
  | _ + 3 => cases h

/-! ## The parts of a geometry -/

variable (o n resolver)

theorem isListing_roads : IsListing RoadSurface.segment
    (fun i => (o.outcome? n resolver i).bind Except.toOption)
    (o.surfaces n resolver).roads := by
  have hroads : (o.surfaces n resolver).roads = n.edges.zipIdx.filterMap fun (e, i) =>
      (RoadSurface.ofEdge? o n (n.styles resolver) (n.patches resolver) e i).bind
        Except.toOption := List.filterMap_filterMap
  rw [hroads]
  simp only [outcome?, Option.bind_assoc]
  refine isListing_filterMap_zipIdx (fun e i s h => ?_) n.edges
  obtain ⟨x, hx, hs⟩ := Option.bind_eq_some_iff.mp h
  rw [toOption_eq_some_iff.mp hs] at hx
  exact (RoadSurface.segment_of_ofEdge? hx).1

theorem isListing_junctions : IsListing JunctionSurface.node (o.junction? n resolver)
    (o.surfaces n resolver).junctions := by
  have hjunctions : (o.surfaces n resolver).junctions = n.nodes.zipIdx.filterMap fun (v, i) =>
      (SizedPatch.ofNode n (n.styles resolver) v i).map fun p =>
        Patch.build i p.kind v.position v.elevation p.shape o.islandHeight
          (max o.arcSegments.toNat 3) := by
    rw [surfaces]
    dsimp only
    rw [List.filterMap_filterMap, ← Network.styles]
    -- A patch knows its node by number only, and looking it up gives the node it was made for.
    refine List.filterMap_congr fun (v, i) hv => ?_
    have hget : n.nodes[i]? = some v := List.mem_zipIdx_iff_getElem?.mp hv
    cases hp : SizedPatch.ofNode n (n.styles resolver) v i with
    | none => simp
    | some p => simp [(SizedPatch.ofNode_eq_some_iff.mp hp).2, hget]
  rw [hjunctions]
  refine isListing_filterMap_zipIdx (fun v i j h => ?_) n.nodes
  obtain ⟨p, _, rfl⟩ := Option.map_eq_some_iff.mp h
  rfl

/-- Every patch that is built covers a node, and the rules give it its size. -/
theorem exists_eq_build_of_mem_junctions {j : JunctionSurface α}
    (hj : j ∈ (o.surfaces n resolver).junctions) :
    ∃ v, n.nodes[j.node]? = some v ∧
      j = Patch.build j.node (n.intersectionType j.node) v.position v.elevation
        (SizedPatch.shapeOf n.rules (SizedPatch.widest (n.styles resolver) v.incident)
          (n.intersectionType j.node)) o.islandHeight (max o.arcSegments.toNat 3) := by
  have hmade := (o.isListing_junctions n resolver).mem_iff.mp hj
  obtain ⟨v, hv, hmade⟩ := Option.bind_eq_some_iff.mp hmade
  obtain ⟨p, hp, heq⟩ := Option.map_eq_some_iff.mp hmade
  rw [(SizedPatch.ofNode_eq_some_iff.mp hp).2] at heq
  exact ⟨v, hv, heq.symm⟩

/-- The warnings stand one stage after the other. -/
theorem warnings_surfaces :
    (o.surfaces n resolver).warnings = (List.range 3).flatMap (o.warningsOf n resolver) := by
  have hnodes : (n.nodes.zipIdx.flatMap fun (v, i) =>
      SizedPatch.warnings n (n.styles resolver) v i) = n.nodeWarnings resolver := by
    simp only [SizedPatch.warnings_eq, Network.nodeWarnings, List.filterMap_eq_flatMap_toList]
  have hwarnings : (o.surfaces n resolver).warnings =
      n.styleWarnings resolver ++ n.nodeWarnings resolver ++ o.shortfalls n resolver := by
    rw [← hnodes, shortfalls, ← List.filterMap_filterMap]
    rfl
  simp [hwarnings, List.range_succ, warningsOf]

theorem filter_stage_warnings {stage : Nat} (h : stage < 3) :
    ((o.surfaces n resolver).warnings.filter fun w => w.stage == stage) =
      o.warningsOf n resolver stage := by
  have hstages : ∀ k, ((o.warningsOf n resolver k).filter fun w => w.stage == stage) =
      if k = stage then o.warningsOf n resolver stage else [] := by
    intro k
    split
    · next hk =>
        subst hk
        exact List.filter_eq_self.mpr fun w hw => by simp [stage_of_mem_warningsOf hw]
    · next hk =>
        exact List.filter_eq_nil_iff.mpr fun w hw => by simp [stage_of_mem_warningsOf hw, hk]
  rw [warnings_surfaces, List.filter_flatMap]
  simp only [hstages]
  have hcases : stage = 0 ∨ stage = 1 ∨ stage = 2 := by omega
  rcases hcases with rfl | rfl | rfl <;> simp [List.range_succ]

/-- Roads are cut back by the surfaces over their ends. -/
theorem radiusAt_surfaces (i : Nat) :
    (o.surfaces n resolver).radiusAt i = RoadSurface.trim (n.patches resolver) i := by
  rw [Geometry.radiusAt, (o.isListing_junctions n resolver).find?_eq, Network.trim_patches,
    junction?, Network.patch?]
  cases n.nodes[i]? with
  | none => rfl
  | some v => cases h : SizedPatch.ofNode n (n.styles resolver) v i <;> simp [h, Patch.build]

/-- A road has its surface or its warning, whichever is made for it. -/
theorem treatment_surfaces (i : Nat) :
    (o.surfaces n resolver).treatment i =
      (((o.outcome? n resolver i).bind Except.toOption).toList,
        ((o.outcome? n resolver i).bind BuildWarning.ofOutcome?).toList) := by
  have hshort : (o.surfaces n resolver).warnings.filter (BuildWarning.isShortfallOf i) =
      (o.warningsOf n resolver 2).filter fun w => w.subject == i := by
    rw [← filter_stage_warnings o n resolver (by omega), List.filter_filter]
    exact List.filter_congr fun w _ => by rw [w.isShortfallOf_eq, Bool.and_comm]
  rw [Geometry.treatment, (o.isListing_roads n resolver).filter_eq, hshort,
    (o.isListing_warningsOf n resolver 2).filter_eq]
  rfl

end BuildOptions

end Roadworks
