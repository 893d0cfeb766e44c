import Roadworks.Proofs.Exact.Drawing
import Roadworks.Proofs.Surface.Fallback
/-! # Roads have a width

A style is in effect only where it has no fault, so every strip of a road is wide and so is the
road. -/

namespace Roadworks

namespace StyleProfile

variable {p : StyleProfile ℝ}

theorem isPositive_iff {x : ℝ} : isPositive x = true ↔ 0 < x := by
  rw [isPositive, decimal_zero]
  simp [Scalar.isFinite]

theorem markingFault?_default_real : markingFault? (.default : MarkingPattern ℝ) = none := by
  have hline : isPositive (0.15 : ℝ) = true := isPositive_iff.mpr (by norm_num)
  have hdash : isPositive (3.0 : ℝ) = true := isPositive_iff.mpr (by norm_num)
  have hgap : isPositive (4.0 : ℝ) = true := isPositive_iff.mpr (by norm_num)
  have hlong : ¬ Scalar.min (3.0 : ℝ) 4.0 < 0.15 := by
    rw [Scalar.min_eq]
    norm_num
  simp [markingFault?, MarkingPattern.default, hline, hdash, hgap, hlong]

theorem fault?_default_real : (default : StyleProfile ℝ).fault? = none := by
  have hlane : isPositive (3.5 : ℝ) = true := isPositive_iff.mpr (by norm_num)
  simp [fault?, default, markingFault?_default_real, hlane]

/-- The widths of a style without fault. -/
theorem pos_of_fault?_eq_none (h : p.fault? = none) :
    p.laneCount ≠ 0 ∧ 0 < p.laneWidth ∧ (∀ w ∈ p.shoulderWidth, 0 < w) ∧
      (∀ w ∈ p.medianWidth, 0 < w) ∧ ∀ c ∈ p.curb, 0 < c.width := by
  have hcurb (c : CurbProfile ℝ) (hc : curbFault? c = none) : 0 < c.width := by
    rw [curbFault?] at hc
    split at hc
    · cases hc
    · next hwidth =>
        simp only [Bool.or_eq_true, not_or, Bool.not_eq_true', Bool.not_eq_false] at hwidth
        exact isPositive_iff.mp hwidth.1.1
  rw [fault?] at h
  split_ifs at h with hcount hlane hshoulder hmedian
  simp only [Bool.not_eq_true', Bool.not_eq_false, Option.all_eq_true] at hlane hshoulder hmedian
  refine ⟨hcount, isPositive_iff.mp hlane, fun w hw => isPositive_iff.mp (hshoulder w hw),
    fun w hw => isPositive_iff.mp (hmedian w hw), fun c hc => hcurb c ?_⟩
  rw [Option.or_eq_none_iff, Option.mem_def.mp hc, Option.bind_some] at h
  exact h.2

end StyleProfile

namespace CrossSection

variable {p : StyleProfile ℝ}

theorem pos_of_mem_margin (h : p.fault? = none) : ∀ s ∈ margin p, 0 < s.2 := by
  obtain ⟨_, _, hshoulder, _, hcurb⟩ := StyleProfile.pos_of_fault?_eq_none h
  intro s hs
  rcases List.mem_append.mp hs with hs | hs
  · cases hc : p.curb with
    | none =>
        rw [hc] at hs
        cases hs
    | some c =>
        rw [hc] at hs
        have hwidth := hcurb c hc
        simp only [decimal_zero] at hs
        rcases List.mem_append.mp hs with hs | hs
        · split at hs
          · next hwalk => rwa [List.mem_singleton.mp hs]
          · cases hs
        · rwa [List.mem_singleton.mp hs]
  · obtain ⟨w, hw, rfl⟩ := List.mem_map.mp hs
    exact hshoulder w (Option.mem_toList.mp hw)

theorem pos_of_mem_strips (h : p.fault? = none) : ∀ s ∈ strips p, 0 < s.2 := by
  obtain ⟨_, hlane, _, hmedian, _⟩ := StyleProfile.pos_of_fault?_eq_none h
  have hmargin := pos_of_mem_margin h
  intro s hs
  simp only [strips, List.mem_append, List.mem_reverse, List.mem_map] at hs
  rcases hs with (((hs | hs) | ⟨w, hw, rfl⟩) | hs) | hs
  · exact hmargin s hs
  · rwa [List.eq_of_mem_replicate hs]
  · exact hmedian w (Option.mem_toList.mp hw)
  · rwa [List.eq_of_mem_replicate hs]
  · exact hmargin s hs

/-- The right side has a lane, also where the left side has none. -/
theorem rightLanes_ne_zero (h : p.laneCount ≠ 0) : p.laneCount.toNat - leftLanes p ≠ 0 := by
  have hcount : p.laneCount.toNat ≠ 0 := fun hzero => h (UInt32.toNat_inj.mp hzero)
  rw [leftLanes]
  omega

theorem strips_ne_nil (h : p.laneCount ≠ 0) : strips p ≠ [] := by
  simp [strips, rightLanes_ne_zero h]

theorem halfWidth_pos (h : p.fault? = none) : 0 < (ofProfile p).halfWidth := by
  have hsum : 0 < ((strips p).map (·.2)).sum := by
    refine List.sum_pos _ ?_ ?_
    · intro w hw
      obtain ⟨s, hs, rfl⟩ := List.mem_map.mp hw
      exact pos_of_mem_strips h s hs
    · simpa using strips_ne_nil (StyleProfile.pos_of_fault?_eq_none h).1
  rw [halfWidth, ofProfile, Network.sum_eq]
  dsimp only
  linarith

end CrossSection

/-- A style is in effect only where it has no fault. -/
theorem Resolved.exists_eq_ofProfile (resolver : StyleResolver ℝ) (e : Edge ℝ) :
    ∃ p, p.fault? = none ∧ ofEdge resolver e = ofProfile p := by
  obtain ⟨p, hp, hfault⟩ :=
    resolver.exists_orDefault_eq StyleProfile.fault?_default_real e.styleClass
  refine ⟨p, hfault, ?_⟩
  rw [← ofEdge_orDefault, ofEdge, hp]
  simp [hfault]

theorem Resolved.halfWidth_pos (resolver : StyleResolver ℝ) (e : Edge ℝ) :
    0 < (ofEdge resolver e).crossSection.halfWidth := by
  obtain ⟨p, hfault, hstyle⟩ := exists_eq_ofProfile resolver e
  rw [hstyle]
  exact CrossSection.halfWidth_pos hfault

end Roadworks
