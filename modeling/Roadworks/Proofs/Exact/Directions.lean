import Roadworks.Proofs.Exact.Reals
/-! # Directions over the reals

A vector other than zero is its direction, which has length one, times its length. -/

namespace Roadworks.Vec

variable {v w : Vec ℝ} {k : ℝ}

@[simp]
theorem mul_x (v : Vec ℝ) (k : ℝ) : (v * k).x = v.x * k := rfl

@[simp]
theorem mul_y (v : Vec ℝ) (k : ℝ) : (v * k).y = v.y * k := rfl

/-! ## Lengths -/

theorem norm_nonneg (v : Vec ℝ) : 0 ≤ v.norm := Real.sqrt_nonneg _

theorem norm_sq (v : Vec ℝ) : v.norm ^ 2 = v.x ^ 2 + v.y ^ 2 := by
  rw [norm_eq, Real.sq_sqrt (by positivity)]

theorem norm_eq_zero_iff : v.norm = 0 ↔ v = 0 := by
  rw [norm_eq, Real.sqrt_eq_zero (by positivity)]
  constructor
  · intro h
    have hx : v.x ^ 2 = 0 := by nlinarith [sq_nonneg v.x, sq_nonneg v.y]
    have hy : v.y ^ 2 = 0 := by nlinarith [sq_nonneg v.x, sq_nonneg v.y]
    ext
    · simpa using hx
    · simpa using hy
  · rintro rfl
    simp

theorem norm_pos_iff : 0 < v.norm ↔ v ≠ 0 := by
  rw [(norm_nonneg v).lt_iff_ne', ne_eq, norm_eq_zero_iff]

theorem norm2_pos_iff : 0 < v.norm2 ↔ v ≠ 0 := by
  rw [norm2_eq, ← norm_sq, sq_pos_iff, ne_eq, norm_eq_zero_iff]

theorem dist_pos_iff : 0 < v.dist w ↔ v ≠ w := by
  rw [dist, norm_pos_iff, sub_ne_zero, ne_comm]

theorem norm_mul (v : Vec ℝ) (k : ℝ) : (v * k).norm = v.norm * |k| := by
  have hsquares : (v * k).x ^ 2 + (v * k).y ^ 2 = (v.x ^ 2 + v.y ^ 2) * k ^ 2 := by
    rw [mul_x, mul_y]
    ring
  rw [norm_eq, norm_eq, hsquares, Real.sqrt_mul (by positivity), Real.sqrt_sq_eq_abs]

theorem norm2_neg (v : Vec ℝ) : (-v).norm2 = v.norm2 := by
  simp [norm2_eq]

theorem norm_neg (v : Vec ℝ) : (-v).norm = v.norm := by
  rw [norm, norm2_neg, ← norm]

/-! ## Directions -/

theorem unit_eq (v : Vec ℝ) : v.unit = v * (1 / v.norm) := by
  rw [unit, decimal_one]

theorem norm_unit (h : v ≠ 0) : v.unit.norm = 1 := by
  have hpos := norm_pos_iff.mpr h
  rw [unit_eq, norm_mul, abs_of_pos (one_div_pos.mpr hpos), mul_one_div_cancel hpos.ne']

theorem unit_eq_self (h : v.norm = 1) : v.unit = v := by
  rw [unit_eq, h]
  ext <;> simp

theorem unit_mul_norm (v : Vec ℝ) : v.unit * v.norm = v := by
  rcases eq_or_ne v 0 with rfl | hne
  · ext <;> simp [unit_eq]
  · have hpos := (norm_pos_iff.mpr hne).ne'
    rw [unit_eq]
    ext
    · simp only [mul_x]
      field_simp
    · simp only [mul_y]
      field_simp

theorem unit_neg (v : Vec ℝ) : (-v).unit = -v.unit := by
  rw [unit_eq, unit_eq, norm_neg]
  ext <;> simp

/-- A direction does not depend on the length. -/
theorem unit_mul (v : Vec ℝ) (hk : 0 < k) : (v * k).unit = v.unit := by
  rw [unit_eq, unit_eq, norm_mul, abs_of_pos hk]
  ext
  · simp only [mul_x]
    field_simp
  · simp only [mul_y]
    field_simp

/-- The inner product of two directions lies between minus one and one. -/
theorem abs_dot_le_one (hv : v.norm = 1) (hw : w.norm = 1) : |v.dot w| ≤ 1 := by
  have hv2 := norm_sq v
  have hw2 := norm_sq w
  rw [hv] at hv2
  rw [hw] at hw2
  rw [dot, abs_le]
  constructor
  · nlinarith [sq_nonneg (v.x + w.x), sq_nonneg (v.y + w.y)]
  · nlinarith [sq_nonneg (v.x - w.x), sq_nonneg (v.y - w.y)]

theorem dot_self_of_norm (hv : v.norm = 1) : v.dot v = 1 := by
  have hsquare := norm_sq v
  rw [hv] at hsquare
  rw [dot]
  linarith

/-! ## Quarter turns -/

theorem dot_rot90 (v w : Vec ℝ) : v.rot90.dot w.rot90 = v.dot w := by
  simp only [dot, rot90]
  ring

theorem norm_rot90 (v : Vec ℝ) : v.rot90.norm = v.norm := by
  rw [norm_eq, norm_eq, rot90, neg_sq, add_comm]

end Roadworks.Vec
