import Roadworks.Proofs.Surface.Accounting
/-! # Falling back is asking for the default

A build sees a style only as what is in effect on a road. Where the default stands in for a style
that is missing or cannot be built, it makes what it makes where the default is asked for. -/

namespace Roadworks

variable {α : Type}

/-- The warning that the default stands in for a style. -/
def BuildWarning.isFallback : BuildWarning α → Bool
  | .missingStyle _ _ | .invalidStyle _ _ _ => true
  | .segmentTooShort _ _ | .unclassifiedJunction _ _ | .degenerateIsland _ => false

theorem BuildWarning.isFallback_eq (w : BuildWarning α) : w.isFallback = (w.stage == 0) := by
  cases w <;> rfl

variable [Scalar α]

/-- Finds what a resolver finds, and the default where that is nothing or cannot be built. -/
def StyleResolver.orDefault (resolver : StyleResolver α) : StyleResolver α := fun c =>
  match resolver c with
  | none => some .default
  | some p => if p.fault? = none then some p else some .default

/-! ## Styles in effect -/

theorem Resolved.ofEdge_orDefault (r : StyleResolver α) (e : Edge α) :
    Resolved.ofEdge r.orDefault e = Resolved.ofEdge r e := by
  unfold Resolved.ofEdge StyleResolver.orDefault
  cases r e.styleClass with
  | none =>
      -- The default stands in whether or not it passes its own check.
      dsimp only
      split <;> rfl
  | some p =>
      cases hp : p.fault? with
      | none => simp [hp]
      | some fault =>
          simp only [hp, reduceCtorEq, if_false]
          split <;> rfl

/-- Where the default can be built, whatever is found can be. -/
theorem StyleResolver.exists_orDefault_eq
    (hdefault : (StyleProfile.default : StyleProfile α).fault? = none) (r : StyleResolver α)
    (c : String) : ∃ p, r.orDefault c = some p ∧ p.fault? = none := by
  unfold StyleResolver.orDefault
  cases r c with
  | none => exact ⟨_, rfl, hdefault⟩
  | some p =>
      by_cases hp : p.fault? = none
      · exact ⟨p, if_pos hp, hp⟩
      · exact ⟨_, if_neg hp, hdefault⟩

namespace Network

variable {n : Network α} {r r' : StyleResolver α}

theorem styles_orDefault (n : Network α) (r : StyleResolver α) :
    n.styles r.orDefault = n.styles r :=
  List.map_congr_left fun e _ => Resolved.ofEdge_orDefault r e

theorem styleWarnings_orDefault
    (hdefault : (StyleProfile.default : StyleProfile α).fault? = none) (n : Network α)
    (r : StyleResolver α) : n.styleWarnings r.orDefault = [] := by
  refine List.filterMap_eq_nil_iff.mpr fun (e, i) _ => ?_
  obtain ⟨p, hp, hfault⟩ := r.exists_orDefault_eq hdefault e.styleClass
  simp only [Resolved.warning?, hp, hfault, Option.map_none]

end Network

/-! ## Builds -/

namespace BuildOptions

variable {n : Network α} {r r' : StyleResolver α}

theorem surfaces_eq_of_styles_eq (o : BuildOptions α) (h : n.styles r = n.styles r') :
    (o.surfaces n r).roads = (o.surfaces n r').roads ∧
      (o.surfaces n r).junctions = (o.surfaces n r').junctions := by
  unfold surfaces
  unfold Network.styles at h
  rw [h]
  exact ⟨rfl, rfl⟩

/-- Warnings about nodes and roads depend on the styles in effect. -/
theorem warningsOf_succ_eq_of_styles_eq (o : BuildOptions α) (h : n.styles r = n.styles r')
    (stage : Nat) : o.warningsOf n r (stage + 1) = o.warningsOf n r' (stage + 1) := by
  have hpatches : n.patches r = n.patches r' := by rw [Network.patches, h, Network.patches]
  match stage with
  | 0 => simp only [warningsOf, Network.nodeWarnings, h]
  | 1 => simp only [warningsOf, shortfalls, h, hpatches]
  | _ + 2 => simp only [warningsOf]

theorem warningsOf_orDefault (hdefault : (StyleProfile.default : StyleProfile α).fault? = none)
    (o : BuildOptions α) (n : Network α) (r : StyleResolver α) (stage : Nat) :
    o.warningsOf n r.orDefault stage =
      (o.warningsOf n r stage).filter fun w => !w.isFallback := by
  cases stage with
  | zero =>
      rw [warningsOf, n.styleWarnings_orDefault hdefault, eq_comm, List.filter_eq_nil_iff]
      intro w hw
      simp [BuildWarning.isFallback_eq, stage_of_mem_warningsOf hw]
  | succ stage =>
      rw [o.warningsOf_succ_eq_of_styles_eq (n.styles_orDefault r), eq_comm, List.filter_eq_self]
      intro w hw
      simp [BuildWarning.isFallback_eq, stage_of_mem_warningsOf hw]

theorem surfaces_orDefault (hdefault : (StyleProfile.default : StyleProfile α).fault? = none)
    (o : BuildOptions α) (n : Network α) (r : StyleResolver α) :
    (o.surfaces n r.orDefault).roads = (o.surfaces n r).roads ∧
      (o.surfaces n r.orDefault).junctions = (o.surfaces n r).junctions ∧
      (o.surfaces n r.orDefault).warnings =
        (o.surfaces n r).warnings.filter fun w => !w.isFallback := by
  obtain ⟨hroads, hjunctions⟩ := o.surfaces_eq_of_styles_eq (n.styles_orDefault r)
  refine ⟨hroads, hjunctions, ?_⟩
  have hstages : o.warningsOf n r.orDefault = fun stage =>
      (o.warningsOf n r stage).filter fun w => !w.isFallback :=
    funext (o.warningsOf_orDefault hdefault n r)
  rw [warnings_surfaces, warnings_surfaces, List.filter_flatMap, hstages]

end BuildOptions

/-! ## Doubles -/

theorem StyleProfile.fault?_default : (StyleProfile.default : StyleProfile Float).fault? = none := by
  decide +kernel

namespace Builder

/-- A build that asks for the default where a style is missing or cannot be built makes the same
surfaces, and warns of all but the styles. -/
theorem build_orDefault {n : Network Float} (hvalid : n.validate = .ok ()) (b : Builder Float)
    (r : StyleResolver Float) :
    ∃ g g', (b.build n r).2 = .ok g ∧ (b.build n r.orDefault).2 = .ok g' ∧
      g'.roads = g.roads ∧ g'.junctions = g.junctions ∧
      g'.warnings = g.warnings.filter fun w => !w.isFallback := by
  refine ⟨b.options.surfaces n r, b.options.surfaces n r.orDefault, ?_, ?_, ?_⟩
  · rw [build_of_ok hvalid]
  · rw [build_of_ok hvalid]
  · exact b.options.surfaces_orDefault StyleProfile.fault?_default n r

/-- Streets without lanes, and lanes in no style at all. -/
def laneless : StyleResolver Float := fun c =>
  if c = "street" then some { StyleProfile.default with laneCount := 0 } else none

theorem build_orDefault_retraced :
    ∃ n g g', AssemblyOptions.assemble .default retraced = .ok n ∧
      ((new .default).build n laneless).2 = .ok g ∧
      .invalidStyle 0 "street" .noLane ∈ g.warnings ∧
      ((new .default).build n laneless.orDefault).2 = .ok g' ∧
      g'.roads = g.roads ∧ g'.junctions = g.junctions ∧
      g'.warnings = g.warnings.filter fun w => !w.isFallback := by
  obtain ⟨n, e, hassemble, he, hclass⟩ := exists_street_retraced
  have hvalid := (isSound_of_assemble hassemble).validate_eq_ok
  obtain ⟨g, g', hg, hg', hsame⟩ := build_orDefault hvalid (new .default) laneless
  refine ⟨n, g, g', hassemble, hg, ?_, hg', hsame⟩
  rw [build_of_ok hvalid] at hg
  cases hg
  exact BuildOptions.invalidStyle_mem_iff.mpr ⟨e, _, he, hclass, rfl, rfl⟩

end Builder

end Roadworks
