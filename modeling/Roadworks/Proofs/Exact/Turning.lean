import Mathlib.Analysis.SpecialFunctions.Complex.Arg
import Roadworks.Proofs.Exact.Directions
/-! # Turned and mirrored vectors

Turning a vector adds to its heading, mirroring it subtracts the heading from twice that of the
axis. Neither changes the angle of two vectors. -/

namespace Roadworks

/-! ## Angles within a turn -/

theorem tau_eq : (Scalar.tau : ℝ) = 2 * Real.pi := by
  change (2.0 : ℝ) * Real.pi = 2 * Real.pi
  norm_num

theorem modulo_eq (x p : ℝ) :
    Scalar.modulo x p = if Scalar.rem x p < 0 then Scalar.rem x p + p else Scalar.rem x p := by
  rw [Scalar.modulo, decimal_zero]

/-- The remainder that is not negative lies a multiple of the divisor away, below the divisor. -/
theorem modulo_eq_toIcoMod {p : ℝ} (hp : 0 < p) (x : ℝ) :
    Scalar.modulo x p = toIcoMod hp 0 x := by
  have hrem := isRemainder_rem hp x
  obtain ⟨hlow, hhigh⟩ := hrem.mem_Ioo hp
  obtain ⟨k, hk⟩ := hrem.exists_eq
  symm
  rw [toIcoMod_eq_iff, zero_add, modulo_eq]
  split
  · exact ⟨⟨by linarith, by linarith⟩, k - 1, by rw [zsmul_eq_mul]; push_cast; linarith⟩
  · exact ⟨⟨by linarith, hhigh⟩, k, by rw [zsmul_eq_mul]; exact hk⟩

/-- Over the reals no angle rounds up to the full turn. -/
theorem normalizeAngle_eq (x : ℝ) : normalizeAngle x = toIcoMod Real.two_pi_pos 0 x := by
  have hlt : toIcoMod Real.two_pi_pos 0 x < 2 * Real.pi :=
    (toIcoMod_mem_Ico' Real.two_pi_pos x).2
  rw [normalizeAngle, tau_eq, modulo_eq_toIcoMod Real.two_pi_pos]
  exact if_neg hlt.not_ge

theorem normalizeAngle_nonneg (x : ℝ) : 0 ≤ normalizeAngle x := by
  rw [normalizeAngle_eq]
  exact (toIcoMod_mem_Ico' Real.two_pi_pos x).1

theorem normalizeAngle_lt (x : ℝ) : normalizeAngle x < 2 * Real.pi := by
  rw [normalizeAngle_eq]
  exact (toIcoMod_mem_Ico' Real.two_pi_pos x).2

/-- Angles are the same within a turn when they differ by full turns. -/
theorem normalizeAngle_eq_iff {x y : ℝ} :
    normalizeAngle x = normalizeAngle y ↔ (x : Real.Angle) = y := by
  rw [normalizeAngle_eq, normalizeAngle_eq, toIcoMod_inj]
  exact AddCommGroup.modEq_iff_eq_mod_zmultiples

theorem coe_normalizeAngle (x : ℝ) : ((normalizeAngle x : ℝ) : Real.Angle) = x := by
  rw [← normalizeAngle_eq_iff, normalizeAngle_eq, normalizeAngle_eq, toIcoMod_toIcoMod]

/-- An angle of the turn number `k` is moved back by `k` turns. -/
theorem normalizeAngle_eq_sub {x : ℝ} (k : ℤ) (hlow : k * (2 * Real.pi) ≤ x)
    (hhigh : x < (k + 1) * (2 * Real.pi)) : normalizeAngle x = x - k * (2 * Real.pi) := by
  rw [normalizeAngle_eq, toIcoMod_eq_iff, zero_add]
  exact ⟨⟨by linarith, by linarith⟩, k, by rw [zsmul_eq_mul]; ring⟩

namespace Vec

variable {v w : Vec ℝ}

/-- The vector turned counterclockwise. -/
noncomputable def rotate (θ : ℝ) (v : Vec ℝ) : Vec ℝ :=
  ⟨Real.cos θ * v.x - Real.sin θ * v.y, Real.sin θ * v.x + Real.cos θ * v.y⟩

/-- The vector mirrored in the line through the origin with heading `φ`. -/
noncomputable def reflect (φ : ℝ) (v : Vec ℝ) : Vec ℝ :=
  ⟨Real.cos (φ + φ) * v.x + Real.sin (φ + φ) * v.y,
    Real.sin (φ + φ) * v.x - Real.cos (φ + φ) * v.y⟩

/-! ## Headings -/

theorem heading_eq (v : Vec ℝ) : v.heading = normalizeAngle (Complex.arg ⟨v.x, v.y⟩) := rfl

theorem coe_heading (v : Vec ℝ) : ((v.heading : ℝ) : Real.Angle) = Complex.arg ⟨v.x, v.y⟩ := by
  rw [heading_eq, coe_normalizeAngle]

theorem heading_nonneg (v : Vec ℝ) : 0 ≤ v.heading := normalizeAngle_nonneg _

theorem heading_lt (v : Vec ℝ) : v.heading < 2 * Real.pi := normalizeAngle_lt _

theorem mk_ne_zero (hv : v ≠ 0) : (⟨v.x, v.y⟩ : ℂ) ≠ 0 := by
  intro h
  rcases Complex.ext_iff.mp h with ⟨hx, hy⟩
  exact hv (by ext <;> simpa)

/-- A heading does not depend on the length. -/
theorem heading_unit (hv : v ≠ 0) : v.unit.heading = v.heading := by
  have hpos : 0 < 1 / v.norm := one_div_pos.mpr (norm_pos_iff.mpr hv)
  have hproduct : (⟨v.unit.x, v.unit.y⟩ : ℂ) = (1 / v.norm : ℝ) * ⟨v.x, v.y⟩ := by
    rw [unit_eq]
    apply Complex.ext
    · simp [mul_comm]
    · simp [mul_comm]
  rw [heading_eq, heading_eq, hproduct, Complex.arg_real_mul _ hpos]

/-- A direction is that of its heading. -/
theorem ofHeading_heading (hv : v.norm = 1) : ofHeading v.heading = v := by
  have hne : v ≠ 0 := norm_pos_iff.mp (hv ▸ one_pos)
  have hnorm : ‖(⟨v.x, v.y⟩ : ℂ)‖ = 1 := by
    rw [← hv, norm_eq, Complex.norm_eq_sqrt_sq_add_sq]
  ext
  · change Real.cos v.heading = v.x
    rw [← Real.Angle.cos_coe, coe_heading, Real.Angle.cos_coe, Complex.cos_arg (mk_ne_zero hne),
      hnorm, div_one]
  · change Real.sin v.heading = v.y
    rw [← Real.Angle.sin_coe, coe_heading, Real.Angle.sin_coe, Complex.sin_arg, hnorm, div_one]

/-- A product with a number on the unit circle turns by the angle of that number. -/
theorem coe_arg_mul (θ : ℝ) {z : ℂ} (hz : z ≠ 0) :
    (Complex.arg (⟨Real.cos θ, Real.sin θ⟩ * z) : Real.Angle) = θ + Complex.arg z := by
  have hunit : (⟨Real.cos θ, Real.sin θ⟩ : ℂ) =
      Real.Angle.cos θ + Real.Angle.sin θ * Complex.I := by
    apply Complex.ext <;> simp [-Complex.ofReal_cos, -Complex.ofReal_sin]
  have hne : (⟨Real.cos θ, Real.sin θ⟩ : ℂ) ≠ 0 := by
    intro h
    have hcos : Real.cos θ = 0 := congrArg Complex.re h
    have hsin : Real.sin θ = 0 := congrArg Complex.im h
    simpa [hcos, hsin] using Real.sin_sq_add_cos_sq θ
  rw [Complex.arg_mul_coe_angle hne hz, hunit, Complex.arg_cos_add_sin_mul_I_coe_angle]

theorem heading_rotate (θ : ℝ) (hv : v ≠ 0) :
    (v.rotate θ).heading = normalizeAngle (v.heading + θ) := by
  have hproduct : (⟨(v.rotate θ).x, (v.rotate θ).y⟩ : ℂ) =
      ⟨Real.cos θ, Real.sin θ⟩ * ⟨v.x, v.y⟩ := by
    apply Complex.ext
    · simp [rotate]
    · simp [rotate, add_comm]
  rw [heading_eq, normalizeAngle_eq_iff, hproduct, coe_arg_mul θ (mk_ne_zero hv),
    Real.Angle.coe_add, coe_heading, add_comm]

theorem heading_reflect (φ : ℝ) (hv : v ≠ 0) :
    (v.reflect φ).heading = normalizeAngle (φ + φ - v.heading) := by
  have hproduct : (⟨(v.reflect φ).x, (v.reflect φ).y⟩ : ℂ) =
      ⟨Real.cos (φ + φ), Real.sin (φ + φ)⟩ * (starRingEnd ℂ) ⟨v.x, v.y⟩ := by
    apply Complex.ext
    · simp [reflect]
    · simp [reflect]
      ring
  have hconj : (starRingEnd ℂ) ⟨v.x, v.y⟩ ≠ 0 := by
    simpa using mk_ne_zero hv
  rw [heading_eq, normalizeAngle_eq_iff, hproduct, coe_arg_mul _ hconj,
    Complex.arg_conj_coe_angle, Real.Angle.coe_sub, coe_heading, sub_eq_add_neg]

/-! ## Lengths and angles -/

theorem dot_rotate (θ : ℝ) (v w : Vec ℝ) : (v.rotate θ).dot (w.rotate θ) = v.dot w := by
  simp only [rotate, dot]
  linear_combination (v.x * w.x + v.y * w.y) * Real.sin_sq_add_cos_sq θ

theorem dot_reflect (φ : ℝ) (v w : Vec ℝ) : (v.reflect φ).dot (w.reflect φ) = v.dot w := by
  simp only [reflect, dot]
  linear_combination (v.x * w.x + v.y * w.y) * Real.sin_sq_add_cos_sq (φ + φ)

/-- A map that keeps inner products keeps angles. -/
theorem angleTo_eq_of_dot_eq {f : Vec ℝ → Vec ℝ} (h : ∀ v w, (f v).dot (f w) = v.dot w)
    (v w : Vec ℝ) : (f v).angleTo (f w) = v.angleTo w := by
  have hnorm (v : Vec ℝ) : (f v).norm = v.norm := congrArg Scalar.sqrt (h v v)
  rw [angleTo, angleTo, h, hnorm, hnorm]

end Vec

end Roadworks
