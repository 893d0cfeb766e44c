import Mathlib.Analysis.SpecialFunctions.Complex.Arg
import Mathlib.Analysis.SpecialFunctions.Trigonometric.Inverse
import Roadworks.Plane.Vec
/-! # The plane over the reals

Exact real numbers are scalars. Over them points form a group, and the distance of two points does
not change when both are moved. -/

namespace Roadworks

open Classical in
noncomputable instance : Scalar ℝ where
  toAdd := inferInstance
  toSub := inferInstance
  toMul := inferInstance
  toDiv := inferInstance
  toNeg := inferInstance
  toLT := inferInstance
  toLE := inferInstance
  beq x y := decide (x = y)
  toOfScientific := inferInstance
  toNatCast := inferInstance
  decLt _ _ := inferInstance
  decLe _ _ := inferInstance
  pi := Real.pi
  sqrt := Real.sqrt
  sin := Real.sin
  cos := Real.cos
  atan2 y x := Complex.arg ⟨x, y⟩
  acos := Real.arccos
  rem x y := x - (if 0 ≤ x / y then (⌊x / y⌋ : ℝ) else ⌈x / y⌉) * y
  floor := Int.floor
  isFinite _ := true
  toSingle := id
  below := id

/-! ## Written numbers -/

theorem decimal_zero : (0.0 : ℝ) = 0 := by norm_num

theorem decimal_one : (1.0 : ℝ) = 1 := by norm_num

/-! ## Remainders -/

/-- What is left of `x` after taking away whole multiples of `y`: smaller than `y`, and on the side
of zero where `x` is. -/
structure IsRemainder (x y r : ℝ) : Prop where
  abs_lt : |r| < |y|
  nonneg : 0 ≤ x → 0 ≤ r
  nonpos : x ≤ 0 → r ≤ 0
  exists_eq : ∃ k : ℤ, x = r + k * y

namespace IsRemainder

variable {x y r : ℝ}

theorem mem_Ioo (h : IsRemainder x y r) (hy : 0 < y) : r ∈ Set.Ioo (-y) y := by
  have hsize := h.abs_lt
  rw [abs_of_pos hy] at hsize
  exact ⟨neg_lt_of_abs_lt hsize, lt_of_abs_lt hsize⟩

/-- The remainder by a larger number is what was divided. -/
theorem eq_of_abs_lt (h : IsRemainder x y r) (hx : |x| < |y|) : r = x := by
  obtain ⟨k, hk⟩ := h.exists_eq
  have hsize := h.abs_lt
  have hdiff : |x - r| < |y| := by
    rcases le_total 0 x with hpos | hneg
    · have hr := h.nonneg hpos
      rw [abs_of_nonneg hpos] at hx
      rw [abs_of_nonneg hr] at hsize
      rw [abs_sub_lt_iff]
      exact ⟨by linarith, by linarith⟩
    · have hr := h.nonpos hneg
      rw [abs_of_nonpos hneg] at hx
      rw [abs_of_nonpos hr] at hsize
      rw [abs_sub_lt_iff]
      exact ⟨by linarith, by linarith⟩
  have hmultiple : x - r = k * y := by linarith
  rw [hmultiple, abs_mul] at hdiff
  have hk0 : k = 0 := by
    by_contra hne
    have hone : (1 : ℝ) ≤ |(k : ℝ)| := by exact_mod_cast Int.one_le_abs hne
    exact absurd hdiff (not_lt.mpr (le_mul_of_one_le_left (abs_nonneg y) hone))
  rw [hk, hk0, Int.cast_zero, zero_mul, add_zero]

end IsRemainder

theorem rem_eq (x p : ℝ) :
    Scalar.rem x p = x - (if 0 ≤ x / p then (⌊x / p⌋ : ℝ) else ⌈x / p⌉) * p := rfl

theorem isRemainder_rem {p : ℝ} (hp : 0 < p) (x : ℝ) : IsRemainder x p (Scalar.rem x p) := by
  have hx : x / p * p = x := div_mul_cancel₀ x hp.ne'
  rw [rem_eq]
  split
  · next hsign =>
      have hnonneg : 0 ≤ x := hx ▸ mul_nonneg hsign hp.le
      have hlow : ⌊x / p⌋ * p ≤ x / p * p := mul_le_mul_of_nonneg_right (Int.floor_le _) hp.le
      have hhigh : x / p * p < (⌊x / p⌋ + 1) * p :=
        mul_lt_mul_of_pos_right (Int.lt_floor_add_one _) hp
      refine ⟨?_, fun _ => by linarith, fun hneg => ?_, ⌊x / p⌋, by ring⟩
      · rw [abs_of_nonneg (by linarith), abs_of_pos hp]
        linarith
      · obtain rfl : x = 0 := le_antisymm hneg hnonneg
        simp
  · next hsign =>
      have hneg : x < 0 := hx ▸ mul_neg_of_neg_of_pos (not_le.mp hsign) hp
      have hlow : (⌈x / p⌉ - 1) * p < x / p * p :=
        mul_lt_mul_of_pos_right (by linarith [Int.ceil_lt_add_one (x / p)]) hp
      have hhigh : x / p * p ≤ ⌈x / p⌉ * p := mul_le_mul_of_nonneg_right (Int.le_ceil _) hp.le
      refine ⟨?_, fun hnonneg => absurd hneg hnonneg.not_gt, fun _ => by linarith, ⌈x / p⌉, by ring⟩
      rw [abs_of_nonpos (by linarith), abs_of_pos hp]
      linarith

/-! ## Bounds -/

namespace Scalar

theorem max_eq (x y : ℝ) : Scalar.max x y = Max.max x y := by
  have hnan : isNaN x = false := by simp [isNaN, BEq.beq]
  rw [Scalar.max, hnan, if_neg Bool.false_ne_true]
  split
  · next h => exact (max_eq_right h.le).symm
  · next h => exact (max_eq_left (not_lt.mp h)).symm

theorem min_eq (x y : ℝ) : Scalar.min x y = Min.min x y := by
  have hnan : isNaN x = false := by simp [isNaN, BEq.beq]
  rw [Scalar.min, hnan, if_neg Bool.false_ne_true]
  split
  · next h => exact (min_eq_right h.le).symm
  · next h => exact (min_eq_left (not_lt.mp h)).symm

theorem clamp_of_mem {lo hi x : ℝ} (hlo : lo ≤ x) (hhi : x ≤ hi) : clamp lo hi x = x := by
  rw [clamp, if_neg hlo.not_gt, if_neg hhi.not_gt]

/-- Nothing is rounded. -/
@[simp]
theorem toSingle_eq (x : ℝ) : toSingle x = x := rfl

end Scalar

namespace Vec

attribute [ext] Vec

/-! ## The group of points -/

@[simp]
theorem add_x (v w : Vec ℝ) : (v + w).x = v.x + w.x := rfl

@[simp]
theorem add_y (v w : Vec ℝ) : (v + w).y = v.y + w.y := rfl

@[simp]
theorem sub_x (v w : Vec ℝ) : (v - w).x = v.x - w.x := rfl

@[simp]
theorem sub_y (v w : Vec ℝ) : (v - w).y = v.y - w.y := rfl

noncomputable instance : Zero (Vec ℝ) := ⟨zero⟩

noncomputable instance : Neg (Vec ℝ) := ⟨fun v => ⟨-v.x, -v.y⟩⟩

theorem zero_eq : (zero : Vec ℝ) = 0 := rfl

@[simp]
theorem zero_x : (0 : Vec ℝ).x = 0 := decimal_zero

@[simp]
theorem zero_y : (0 : Vec ℝ).y = 0 := decimal_zero

@[simp]
theorem neg_x (v : Vec ℝ) : (-v).x = -v.x := rfl

@[simp]
theorem neg_y (v : Vec ℝ) : (-v).y = -v.y := rfl

noncomputable instance : AddCommGroup (Vec ℝ) where
  add_assoc u v w := by ext <;> simp [add_assoc]
  zero_add v := by ext <;> simp
  add_zero v := by ext <;> simp
  add_comm v w := by ext <;> simp [add_comm]
  neg_add_cancel v := by ext <;> simp
  sub_eq_add_neg v w := by ext <;> simp [sub_eq_add_neg]
  nsmul := nsmulRec
  zsmul := zsmulRec

@[simp]
theorem div_x (v : Vec ℝ) (k : ℝ) : (v / k).x = v.x / k := rfl

@[simp]
theorem div_y (v : Vec ℝ) (k : ℝ) : (v / k).y = v.y / k := rfl

@[simp]
theorem nsmul_x (n : ℕ) (v : Vec ℝ) : (n • v).x = n * v.x := by
  induction n with
  | zero => simp
  | succ n ih => simp [succ_nsmul, ih, add_mul]

@[simp]
theorem nsmul_y (n : ℕ) (v : Vec ℝ) : (n • v).y = n * v.y := by
  induction n with
  | zero => simp
  | succ n ih => simp [succ_nsmul, ih, add_mul]

/-! ## Distance -/

theorem norm2_eq (v : Vec ℝ) : v.norm2 = v.x ^ 2 + v.y ^ 2 := by
  rw [norm2, sq, sq]

theorem norm_eq (v : Vec ℝ) : v.norm = √(v.x ^ 2 + v.y ^ 2) := by
  rw [norm, norm2_eq]
  rfl

theorem dist_eq (p q : Vec ℝ) : p.dist q = √((q.x - p.x) ^ 2 + (q.y - p.y) ^ 2) := by
  rw [dist, norm_eq, sub_x, sub_y]

theorem dist_comm (p q : Vec ℝ) : p.dist q = q.dist p := by
  rw [dist_eq, dist_eq, sub_sq_comm, sub_sq_comm q.y]

theorem dist_self (p : Vec ℝ) : p.dist p = 0 := by
  simp [dist_eq]

theorem dist_add_right (p q v : Vec ℝ) : (p + v).dist (q + v) = p.dist q := by
  simp [dist_eq]

theorem abs_x_sub_le_dist (p q : Vec ℝ) : |q.x - p.x| ≤ p.dist q := by
  rw [dist_eq]
  apply Real.abs_le_sqrt
  nlinarith [sq_nonneg (q.y - p.y)]

theorem abs_y_sub_le_dist (p q : Vec ℝ) : |q.y - p.y| ≤ p.dist q := by
  rw [dist_eq]
  apply Real.abs_le_sqrt
  nlinarith [sq_nonneg (q.x - p.x)]

end Vec

end Roadworks
