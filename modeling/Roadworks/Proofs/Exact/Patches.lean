import Roadworks.Proofs.Exact.Roads
import Roadworks.Proofs.Exact.Summary
import Roadworks.Proofs.Exact.Widths
/-! # Roads stop at patches

Over the reals a road is cut back exactly by the patches over its ends, and a patch reaches beyond
every road that ends there. -/

namespace Roadworks

/-! ## Sizes of patches -/

theorem le_foldl_max {β : Type} {f : β → ℝ} {l : List β} {start x : ℝ}
    (h : x ≤ start ∨ ∃ r ∈ l, x ≤ f r) : x ≤ l.foldl (fun w r => Scalar.max w (f r)) start := by
  induction l generalizing start with
  | nil => simpa using h
  | cons r l ih =>
      rw [List.foldl_cons, Scalar.max_eq]
      apply ih
      simp only [List.exists_mem_cons_iff] at h
      rcases h with hx | hx | hx
      · exact .inl (hx.trans (le_max_left _ _))
      · exact .inl (hx.trans (le_max_right _ _))
      · exact .inr hx

theorem JunctionRules.nonneg_of_badRadius?_eq_none {rules : JunctionRules ℝ}
    (h : rules.badRadius? = none) {r : ℝ} (hr : r ∈ rules.radii) : 0 ≤ r := by
  rw [badRadius?, decimal_zero, List.find?_eq_none] at h
  simpa [Scalar.isFinite] using h r hr

namespace SizedPatch

variable {rules : JunctionRules ℝ} {styles : List (Resolved ℝ)} {incident : List Nat}
  {kind : Option IntersectionType} {w : ℝ}

theorem widest_nonneg (styles : List (Resolved ℝ)) (incident : List Nat) :
    0 ≤ widest styles incident := by
  rw [widest, decimal_zero]
  exact le_foldl_max (.inl le_rfl)

theorem halfWidth_le_widest {k : Nat} {r : Resolved ℝ} (hk : k ∈ incident)
    (hr : styles[k]? = some r) : r.crossSection.halfWidth ≤ widest styles incident :=
  le_foldl_max (.inr ⟨r, List.mem_filterMap.mpr ⟨k, hk, hr⟩, le_rfl⟩)

theorem shapeOf_roundabout {radius : ℝ} (h : rules.roundaboutRadius = some radius) (w : ℝ) :
    shapeOf rules w (some .roundabout) =
      ⟨radius + w, if 0 < radius - w then some (radius - w) else none⟩ := by
  simp only [shapeOf, h, decimal_zero]

theorem shapeOf_of_ne (h : kind ≠ some .roundabout) (w : ℝ) :
    shapeOf rules w kind = ⟨w + rules.intersectionRadius, none⟩ := by
  unfold shapeOf
  split
  · exact absurd rfl h
  · rfl

theorem radius_shapeOf_nonneg (h : rules.badRadius? = none) (hw : 0 ≤ w)
    (kind : Option IntersectionType) : 0 ≤ (shapeOf rules w kind).radius := by
  have hnonneg (r : ℝ) (hr : r ∈ rules.radii) : 0 ≤ r :=
    JunctionRules.nonneg_of_badRadius?_eq_none h hr
  unfold shapeOf
  split
  · next radius hradius =>
      exact add_nonneg (hnonneg radius (by simp [JunctionRules.radii, hradius])) hw
  · exact add_nonneg hw (hnonneg _ (by simp [JunctionRules.radii]))

end SizedPatch

theorem Network.trim_patches_nonneg {n : Network ℝ} (h : n.rules.badRadius? = none)
    (resolver : StyleResolver ℝ) (i : Nat) : 0 ≤ RoadSurface.trim (n.patches resolver) i := by
  rw [trim_patches, patch?, decimal_zero]
  cases n.nodes[i]? with
  | none => simp
  | some v =>
      cases hp : SizedPatch.ofNode n (n.styles resolver) v i with
      | none => simp [hp]
      | some p =>
          rw [Option.bind_some, hp, (SizedPatch.ofNode_eq_some_iff.mp hp).2]
          exact SizedPatch.radius_shapeOf_nonneg h (SizedPatch.widest_nonneg _ _) _

/-- Roads and patches of a geometry fit each other. -/
structure Geometry.IsFitted (g : Geometry ℝ) (n : Network ℝ) (resolver : StyleResolver ℝ) :
    Prop where
  /-- A road leads from patch to patch, or is too short for them. -/
  treatment_eq : ∀ (i : Nat) (e : Edge ℝ), n.edges[i]? = some e → ∃ v w,
    n.nodes[e.tail]? = some v ∧ n.nodes[e.head]? = some w ∧
    let l := v.position.dist w.position
    let r := g.radiusAt e.tail
    let r' := g.radiusAt e.head
    if l ≤ 1e-9 ∨ l - r - r' ≤ 1e-9 then g.treatment i = ([], [.segmentTooShort i l])
    else ∃ s, g.treatment i = ([s], []) ∧ s.centreline = [v.toward w (r / l), w.toward v (r' / l)]
  /-- A patch reaches beyond the roads by the radius of the rules. -/
  halfWidth_add_le : ∀ j ∈ g.junctions, ∀ e ∈ n.edges, e.touches j.node →
    j.kind ≠ some .roundabout →
      (Resolved.ofEdge resolver e).crossSection.halfWidth + n.rules.intersectionRadius ≤ j.radius
  /-- A roundabout reaches beyond the roads by its own radius. -/
  halfWidth_add_le_of_roundabout : ∀ j ∈ g.junctions, ∀ e ∈ n.edges, e.touches j.node →
    j.kind = some .roundabout → ∃ radius, n.rules.roundaboutRadius = some radius ∧
      (Resolved.ofEdge resolver e).crossSection.halfWidth + radius ≤ j.radius
  islandRadius_lt : ∀ j ∈ g.junctions, ∀ r, j.islandRadius = some r → 0 < r ∧ r < j.radius

namespace BuildOptions

variable {o : BuildOptions ℝ} {n : Network ℝ} {resolver : StyleResolver ℝ}

/-! ## Roads -/

theorem treatment_surfaces_eq (h : n.validate = .ok ()) (hradius : n.rules.badRadius? = none)
    (o : BuildOptions ℝ) (resolver : StyleResolver ℝ) {i : Nat} {e : Edge ℝ}
    (he : n.edges[i]? = some e) : ∃ v w,
    n.nodes[e.tail]? = some v ∧ n.nodes[e.head]? = some w ∧
    let g := o.surfaces n resolver
    let l := v.position.dist w.position
    let r := g.radiusAt e.tail
    let r' := g.radiusAt e.head
    if l ≤ 1e-9 ∨ l - r - r' ≤ 1e-9 then g.treatment i = ([], [.segmentTooShort i l])
    else ∃ s, g.treatment i = ([s], []) ∧
      s.centreline = [v.toward w (r / l), w.toward v (r' / l)] := by
  obtain ⟨htail, hhead, _⟩ := (Network.validate_eq_ok_iff.mp h).1 e (List.mem_of_getElem? he)
  have hv := List.getElem?_eq_getElem htail
  have hw := List.getElem?_eq_getElem hhead
  refine ⟨_, _, hv, hw, ?_⟩
  have hgap : (Polyline.vertexGap : ℝ) = 1e-9 := rfl
  have hsweep := o.sweep?_eq resolver he hv hw
  simp only [max_eq_right (Network.trim_patches_nonneg hradius resolver _), hgap] at hsweep
  simp only [radiusAt_surfaces]
  split
  · next hshort =>
      rw [if_pos hshort] at hsweep
      rw [treatment_surfaces, o.outcome?_eq_sweep? resolver he hv hw, hsweep]
      rfl
  · next hlong =>
      rw [if_neg hlong] at hsweep
      rw [treatment_surfaces, o.outcome?_eq_sweep? resolver he hv hw, hsweep]
      exact ⟨_, rfl, SweepPath.edge_straight_zero ..⟩

/-! ## Patches -/

/-- Roads that form a roundabout are there, and so is its radius. -/
theorem exists_of_roundabout (h : n.validate = .ok ()) {i : Nat}
    (hkind : n.intersectionType i = some .roundabout) :
    (∃ radius, n.rules.roundaboutRadius = some radius) ∧ ∃ e ∈ n.edges, e.touches i := by
  cases hv : n.nodes[i]? with
  | none => simp [Network.intersectionType, hv] at hkind
  | some v =>
      rw [Network.intersectionType_eq_classify hv] at hkind
      obtain ⟨hradius, hdegree, _⟩ := JunctionRules.formsRoundabout_of_classify hkind
      have hle : (n.approaches i).length ≤ v.incident.length := Network.length_approaches_le hv
      obtain ⟨k, hk⟩ := List.exists_mem_of_length_pos (l := v.incident) (by omega)
      obtain ⟨e, he, htouches⟩ := (Network.mem_incident_iff h hv).mp hk
      exact ⟨Option.isSome_iff_exists.mp hradius, e, List.mem_of_getElem? he, htouches⟩

/-- A patch has the shape for a width that none of its roads exceeds. -/
theorem shape_of_mem_junctions (h : n.validate = .ok ()) {j : JunctionSurface ℝ}
    (hj : j ∈ (o.surfaces n resolver).junctions) :
    ∃ w, (∀ e ∈ n.edges, e.touches j.node →
        (Resolved.ofEdge resolver e).crossSection.halfWidth ≤ w) ∧
      j.kind = n.intersectionType j.node ∧
      j.radius = (SizedPatch.shapeOf n.rules w j.kind).radius ∧
      j.islandRadius = (SizedPatch.shapeOf n.rules w j.kind).island := by
  obtain ⟨v, hv, hmade⟩ := o.exists_eq_build_of_mem_junctions n resolver hj
  refine ⟨SizedPatch.widest (n.styles resolver) v.incident, fun e he htouches => ?_,
    by rw [hmade]; rfl, by rw [hmade]; rfl, by rw [hmade]; rfl⟩
  obtain ⟨k, hk⟩ := List.mem_iff_getElem?.mp he
  refine SizedPatch.halfWidth_le_widest
    ((Network.mem_incident_iff h hv).mpr ⟨e, hk, htouches⟩) ?_
  rw [Network.getElem?_styles, hk, Option.map_some]

/-- Over the reals the surfaces of a network fit each other. -/
theorem isFitted_surfaces (h : n.validate = .ok ()) (hradius : n.rules.badRadius? = none)
    (o : BuildOptions ℝ) (resolver : StyleResolver ℝ) :
    (o.surfaces n resolver).IsFitted n resolver where
  treatment_eq _ _ he := treatment_surfaces_eq h hradius o resolver he
  halfWidth_add_le j hj e he htouches hkind := by
    obtain ⟨w, hwidth, _, hsize, _⟩ := shape_of_mem_junctions h hj
    rw [hsize, SizedPatch.shapeOf_of_ne hkind]
    exact add_le_add_left (hwidth e he htouches) _
  halfWidth_add_le_of_roundabout j hj e he htouches hkind := by
    obtain ⟨w, hwidth, hnode, hsize, _⟩ := shape_of_mem_junctions h hj
    obtain ⟨⟨radius, hround⟩, _⟩ := exists_of_roundabout h (hnode.symm.trans hkind)
    refine ⟨radius, hround, ?_⟩
    rw [hsize, hkind, SizedPatch.shapeOf_roundabout hround, add_comm]
    exact add_le_add_right (hwidth e he htouches) _
  islandRadius_lt j hj r hr := by
    obtain ⟨w, hwidth, hnode, hsize, hisland⟩ := shape_of_mem_junctions h hj
    rw [hisland] at hr
    by_cases hkind : j.kind = some .roundabout
    · obtain ⟨⟨radius, hround⟩, e, he, htouches⟩ :=
        exists_of_roundabout h (hnode.symm.trans hkind)
      have hwide := (Resolved.halfWidth_pos resolver e).trans_le (hwidth e he htouches)
      rw [hkind, SizedPatch.shapeOf_roundabout hround] at hr hsize
      obtain ⟨hroom, heq⟩ := (Option.ite_none_right_eq_some ..).mp hr
      rw [← Option.some.inj heq, hsize]
      exact ⟨hroom, by linarith⟩
    · rw [SizedPatch.shapeOf_of_ne hkind] at hr
      cases hr

end BuildOptions

namespace Builder

/-- Over the reals every road stops exactly at the patches over its ends, or is reported with its
length where they leave nothing of it, and every patch reaches beyond the roads that end there. The
radii of the rules are usable, as those of every network that is handed out. -/
theorem build_fitted {n : Network ℝ} (h : n.validate = .ok ()) (hradius : n.rules.badRadius? = none)
    (b : Builder ℝ) (resolver : StyleResolver ℝ) :
    ∃ g, (b.build n resolver).2 = .ok g ∧ g.IsFitted n resolver :=
  ⟨b.options.surfaces n resolver, by rw [build_of_ok h],
    BuildOptions.isFitted_surfaces h hradius b.options resolver⟩

theorem build_fitted_bentStreet :
    Network.bentStreet.validate = .ok () ∧ Network.bentStreet.rules.badRadius? = none ∧
      ∃ g, ((new .default).build Network.bentStreet fun _ => none).2 = .ok g ∧
        g.IsFitted Network.bentStreet fun _ => none :=
  ⟨Network.validate_bentStreet, Network.badRadius?_bentStreet,
    build_fitted Network.validate_bentStreet Network.badRadius?_bentStreet (new .default) _⟩

end Builder

end Roadworks
