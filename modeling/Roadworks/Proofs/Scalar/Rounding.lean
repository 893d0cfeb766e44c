import Roadworks.Proofs.Exact.Reals
import Roadworks.Proofs.Scalar.Doubles
/-! # Rounding to the nearest double

An operation on doubles finds the digits of the exact result down to some place, and how that which
is cut off compares with half a unit of that place. Shifting keeps both, so rounding can tell the
nearest number with 53 digits. -/

namespace Roadworks.Binary64

open Float.Model Float.Model.UnpackedFloat

/-! ## Digits that are cut off -/

/-- How a rest below one unit compares with half of it. -/
def Tells : Accuracy → ℝ → Prop
  | .exact, rest => rest = 0
  | .inexact .lt, rest => 0 < rest ∧ rest + rest < 1
  | .inexact .eq, rest => rest + rest = 1
  | .inexact .gt, rest => 1 < rest + rest ∧ rest < 1

theorem Tells.bounds {a : Accuracy} {rest : ℝ} (h : Tells a rest) : 0 ≤ rest ∧ rest < 1 := by
  cases a with
  | exact => exact ⟨h.ge, h.trans_lt one_pos⟩
  | inexact o =>
      cases o with
      | lt => exact ⟨h.1.le, by linarith [h.2]⟩
      | eq => exact ⟨by linarith [h.ge], by linarith [h.le]⟩
      | gt => exact ⟨by linarith [h.1], h.2⟩

/-- A mantissa with its residual bits stands for `y`. -/
def Holds (m : ExtendedMantissa) (y : ℝ) : Prop := Tells m.accuracy (y - m.mantissa)

theorem holds_ofMantissaAndAccuracy {m : Nat} {a : Accuracy} {y : ℝ} (h : Tells a (y - m)) :
    Holds (.ofMantissaAndAccuracy m a) y := by
  cases a with
  | exact => exact h
  | inexact o => cases o <;> exact h

/-- A zero that is shifted out halves the rest. -/
theorem Tells.half {j k : Nat} {r s : Bool} {rest : ℝ}
    (h : Tells (ExtendedMantissa.mk k r s).accuracy rest) :
    Tells (ExtendedMantissa.mk j false (r || s)).accuracy (rest / 2) := by
  cases r <;> cases s <;>
    simp only [ExtendedMantissa.accuracy, Tells, Bool.or_self, Bool.or_true, Bool.or_false] at h ⊢
  · linarith
  all_goals constructor <;> linarith

/-- A one that is shifted out brings the rest to half a unit or above. -/
theorem Tells.half_add_one {j k : Nat} {r s : Bool} {rest : ℝ}
    (h : Tells (ExtendedMantissa.mk k r s).accuracy rest) :
    Tells (ExtendedMantissa.mk j true (r || s)).accuracy ((rest + 1) / 2) := by
  cases r <;> cases s <;>
    simp only [ExtendedMantissa.accuracy, Tells, Bool.or_self, Bool.or_true, Bool.or_false] at h ⊢
  · linarith
  all_goals constructor <;> linarith

theorem holds_shiftRightOne {m : ExtendedMantissa} {y : ℝ} (h : Holds m y) :
    Holds m.shiftRightOne (y / 2) := by
  obtain ⟨k, r, s⟩ := m
  rcases Nat.even_or_odd' k with ⟨j, rfl | rfl⟩
  · have hhalf : 2 * j / 2 = j := by omega
    have hrest : y / 2 - j = (y - (2 * j : ℕ)) / 2 := by
      push_cast
      ring
    simp only [Holds, ExtendedMantissa.shiftRightOne, hhalf, Nat.mul_mod_right, bne_self_eq_false]
    exact hrest ▸ h.half
  · have hhalf : (2 * j + 1) / 2 = j := by omega
    have hodd : (2 * j + 1) % 2 = 1 := by omega
    have hrest : y / 2 - j = (y - (2 * j + 1 : ℕ) + 1) / 2 := by
      push_cast
      ring
    simp only [Holds, ExtendedMantissa.shiftRightOne, hhalf, hodd]
    exact hrest ▸ h.half_add_one

theorem holds_shiftRight {m : ExtendedMantissa} {y : ℝ} (h : Holds m y) (k : Nat) :
    Holds (m >>> k) (y / 2 ^ k) := by
  induction k with
  | zero =>
      rw [pow_zero, div_one]
      exact h
  | succ k ih =>
      rw [pow_succ, ← div_div]
      exact holds_shiftRightOne ih

theorem abs_roundedMantissa_sub_le {m : ExtendedMantissa} {y : ℝ} (h : Holds m y) :
    |(m.roundedMantissa : ℝ) - y| ≤ 1 / 2 := by
  rw [Holds] at h
  rw [ExtendedMantissa.roundedMantissa, abs_le]
  cases hacc : m.accuracy with
  | exact =>
      rw [hacc] at h
      simp only [Tells, Accuracy.roundToNearestEven] at h ⊢
      constructor <;> linarith
  | inexact o =>
      rw [hacc] at h
      cases o with
      | lt =>
          simp only [Tells, Accuracy.roundToNearestEven] at h ⊢
          constructor <;> linarith
      | eq =>
          simp only [Tells, Accuracy.roundToNearestEven] at h ⊢
          rcases Nat.mod_two_eq_zero_or_one m.mantissa with hmod | hmod
          · rw [hmod, Nat.add_zero]
            constructor <;> linarith
          · rw [hmod, Nat.cast_add, Nat.cast_one]
            constructor <;> linarith
      | gt =>
          simp only [Tells, Accuracy.roundToNearestEven, Nat.cast_add, Nat.cast_one] at h ⊢
          constructor <;> linarith

/-! ## Nearest numbers -/

/-- The number `X` has 53 digits, down to the least exponent at most, and is nearest to `x` among
those whose last digit has the place `t`, as it is for `x` itself. -/
structure IsRounded (x X : ℝ) (t : ℤ) : Prop where
  exists_eq : ∃ n : ℤ, X = n * 2 ^ t
  abs_sub_le : |X - x| ≤ 2 ^ t / 2
  lt_two_zpow : |x| < 2 ^ (t + 53)
  two_zpow_le : t = -1074 ∨ -1074 ≤ t ∧ 2 ^ (t + 52) ≤ |x|

namespace IsRounded

variable {x X : ℝ} {t : ℤ}

theorem neg (h : IsRounded x X t) : IsRounded (-x) (-X) t := by
  obtain ⟨n, rfl⟩ := h.exists_eq
  refine ⟨⟨-n, by push_cast; ring⟩, ?_, ?_, ?_⟩
  · rw [neg_sub_neg, abs_sub_comm]
    exact h.abs_sub_le
  · rw [abs_neg]
    exact h.lt_two_zpow
  · rw [abs_neg]
    exact h.two_zpow_le

theorem le (h : IsRounded x X t) : -1074 ≤ t := by
  rcases h.two_zpow_le with rfl | ⟨hle, _⟩
  · exact le_rfl
  · exact hle

theorem nonneg (h : IsRounded x X t) (hx : 0 ≤ x) : 0 ≤ X := by
  obtain ⟨n, rfl⟩ := h.exists_eq
  have hunit : (0 : ℝ) < 2 ^ t := by positivity
  have herror := (abs_le.mp h.abs_sub_le).1
  have hn : (-1 : ℝ) < n := by
    refine lt_of_mul_lt_mul_right ?_ hunit.le
    linarith
  have hn : 0 ≤ n := Int.add_one_le_iff.mpr (by exact_mod_cast hn)
  exact mul_nonneg (by exact_mod_cast hn) hunit.le

/-- Where no digit is lost below the least exponent, the error is a share of the number. -/
theorem abs_sub_le_mul (h : IsRounded x X t) (hx : 2 ^ (-1022 : ℤ) ≤ |x|) :
    |X - x| ≤ |x| / 2 ^ 53 := by
  have hunit : (2 : ℝ) ^ t * 2 ^ 52 ≤ |x| := by
    rcases h.two_zpow_le with rfl | ⟨_, hle⟩
    · refine le_trans (le_of_eq ?_) hx
      rw [← zpow_natCast, ← zpow_add₀ two_ne_zero]
      norm_num
    · rwa [zpow_add₀ two_ne_zero] at hle
  have herror := h.abs_sub_le
  rw [le_div_iff₀ (by positivity)]
  linarith

/-- In general it is that, or half a unit of the last place that there is. -/
theorem abs_sub_le_add (h : IsRounded x X t) : |X - x| ≤ |x| / 2 ^ 53 + 2 ^ (-1074 : ℤ) / 2 := by
  have herror := h.abs_sub_le
  rcases h.two_zpow_le with rfl | ⟨_, hle⟩
  · exact herror.trans (le_add_of_nonneg_left (by positivity))
  · refine (herror.trans ?_).trans (le_add_of_nonneg_right (by positivity))
    rw [zpow_add₀ two_ne_zero] at hle
    rw [le_div_iff₀ (by positivity)]
    calc (2 : ℝ) ^ t / 2 * 2 ^ 53 = 2 ^ t * 2 ^ (52 : ℤ) := by
          norm_num
          ring
      _ ≤ |x| := hle

theorem abs_sub_le_of_abs_le (h : IsRounded x X t) {s : ℝ} (hx : |x| ≤ s) :
    |X - x| ≤ (s + 1) / 2 ^ 53 := by
  have hleast : (2 : ℝ) ^ (-1074 : ℤ) ≤ 1 / 2 ^ 53 := by
    rw [one_div, ← zpow_natCast, ← zpow_neg]
    exact zpow_le_zpow_right₀ one_le_two (by norm_num)
  calc |X - x| ≤ |x| / 2 ^ 53 + 2 ^ (-1074 : ℤ) / 2 := h.abs_sub_le_add
    _ ≤ s / 2 ^ 53 + 1 / 2 ^ 53 / 2 := by gcongr
    _ ≤ (s + 1) / 2 ^ 53 := by linarith

/-- The last digit stands for no more than one while there are places for all whole digits. -/
theorem le_zero (h : IsRounded x X t) (hx : |x| < 2 ^ 53) : t ≤ 0 := by
  rcases h.two_zpow_le with rfl | ⟨_, hle⟩
  · omega
  · have hlt := hle.trans_lt hx
    rw [← zpow_natCast, zpow_lt_zpow_iff_right₀ one_lt_two] at hlt
    omega

/-- Below a whole number, a rounded number and the exact one stay by one and half a unit. -/
theorem le_sub_of_lt (h : IsRounded x X t) (ht : t ≤ 0) {n : ℤ} (hn : X < n) :
    x ≤ n - 2 ^ t / 2 := by
  obtain ⟨k, rfl⟩ := h.exists_eq
  obtain ⟨j, rfl⟩ : ∃ j : ℕ, t = -j := ⟨(-t).toNat, by omega⟩
  have hunit : (0 : ℝ) < 2 ^ (-(j : ℤ)) := by positivity
  have hwhole : (n : ℝ) = (n * 2 ^ j : ℤ) * 2 ^ (-(j : ℤ)) := by
    push_cast
    rw [mul_assoc, ← zpow_natCast, ← zpow_add₀ two_ne_zero, add_neg_cancel, zpow_zero, mul_one]
  have hstep : (k + 1 : ℝ) * 2 ^ (-(j : ℤ)) ≤ n := by
    rw [hwhole] at hn ⊢
    have hlt := lt_of_mul_lt_mul_right hn hunit.le
    refine mul_le_mul_of_nonneg_right ?_ hunit.le
    exact_mod_cast Int.add_one_le_iff.mpr (by exact_mod_cast hlt)
  have herror := (abs_le.mp h.abs_sub_le).1
  linarith

/-- Numbers less than one apart are rounded to neighbouring whole numbers at most, if the difference
makes up for both errors. -/
theorem floor_le_of_abs_le {y Y : ℝ} {u : ℤ} (hX : IsRounded x X t) (hY : IsRounded y Y u) {s : ℝ}
    (hx : |x| ≤ s) (hy : |y| ≤ s) (h : y - x ≤ 1 - (s + 1) / 2 ^ 52) : ⌊Y⌋ ≤ ⌊X⌋ + 1 := by
  have hbelow := (abs_le.mp (hX.abs_sub_le_of_abs_le hx)).1
  have habove := (abs_le.mp (hY.abs_sub_le_of_abs_le hy)).2
  rw [← Int.floor_add_one]
  exact Int.floor_le_floor (by linarith)

/-- Numbers less than three quarters apart are rounded to neighbouring whole numbers at most. -/
theorem floor_le {y Y : ℝ} {u : ℤ} (hX : IsRounded x X t) (hY : IsRounded y Y u)
    (hx : |x| < 2 ^ 53) (hy : |y| < 2 ^ 53) (h : y - x < 3 / 4) : ⌊Y⌋ ≤ ⌊X⌋ + 1 := by
  have ht := hX.le_zero hx
  have hu := hY.le_zero hy
  by_contra hfar
  have hbelow := hX.le_sub_of_lt ht (n := ⌊X⌋ + 1) (by push_cast; exact Int.lt_floor_add_one X)
  have habove : ((⌊X⌋ + 2 : ℤ) : ℝ) ≤ Y := Int.le_floor.mp (by omega)
  have herror := (abs_le.mp hY.abs_sub_le).2
  push_cast at hbelow habove
  have hunit : (0 : ℝ) < 2 ^ t := by positivity
  rcases hu.lt_or_eq with hneg | rfl
  · have hquarter : (2 : ℝ) ^ u ≤ 2 ^ (-1 : ℤ) := zpow_le_zpow_right₀ one_le_two (by omega)
    norm_num at hquarter
    linarith
  · -- Where whole numbers have all 53 digits, those below have a half at most.
    have hlarge : (2 : ℝ) ^ (52 : ℤ) ≤ |y| := (hY.two_zpow_le.resolve_left (by omega)).2
    have hhalf : (2 : ℝ) ^ (-1 : ℤ) ≤ 2 ^ t := by
      refine zpow_le_zpow_right₀ one_le_two ?_
      by_contra hsmall
      have hnear := abs_le.mp (abs_abs_sub_abs_le y x)
      have hbound : |y - x| < 1 := abs_lt.mpr ⟨by norm_num at herror; linarith, by linarith⟩
      have hless : |x| < 2 ^ (51 : ℤ) :=
        hX.lt_two_zpow.trans_le (zpow_le_zpow_right₀ one_le_two (by omega))
      norm_num at hless hlarge
      linarith
    norm_num at hhalf herror
    linarith

end IsRounded

/-! ## The digits of a result -/

theorem shift_add_eq {m : Nat} {e : Int}
    (he : e ≤ Format.binary64.targetExponent (totalExponent m e)) :
    e + (Format.binary64.targetExponent (totalExponent m e) - e).toNat =
      Format.binary64.targetExponent (totalExponent m e) := by
  omega

/-- The place of the last digit goes by the first one. -/
theorem abs_lt_and_le_abs {m : Nat} {e : Int} {y : ℝ} (hm : m ≤ y) (hy : y < m + 1)
    (he : e ≤ Format.binary64.targetExponent (totalExponent m e)) :
    y * 2 ^ e < 2 ^ (Format.binary64.targetExponent (totalExponent m e) + 53) ∧
      (Format.binary64.targetExponent (totalExponent m e) = -1074 ∨
        -1074 ≤ Format.binary64.targetExponent (totalExponent m e) ∧
          (2 : ℝ) ^ (Format.binary64.targetExponent (totalExponent m e) + 52) ≤ y * 2 ^ e) := by
  rw [targetExponent_eq, totalExponent] at he ⊢
  constructor
  · have hdigits : m + 1 ≤ 2 ^ (m.log2 + 1) := Nat.lt_log2_self
    calc y * 2 ^ e < (m + 1) * 2 ^ e := mul_lt_mul_of_pos_right hy (by positivity)
      _ ≤ 2 ^ (m.log2 + 1) * 2 ^ e := by
          refine mul_le_mul_of_nonneg_right ?_ (by positivity)
          exact_mod_cast hdigits
      _ = 2 ^ ((m.log2 + 1 : ℤ) + e) := by
          rw [zpow_add₀ two_ne_zero]
          norm_cast
      _ ≤ _ := zpow_le_zpow_right₀ one_le_two (by omega)
  · rcases le_or_gt ((m.log2 : ℤ) + 1 + e - 53) (-1074) with hleast | habove
    · exact .inl (max_eq_right hleast)
    · have hpos : m ≠ 0 := by
        rintro rfl
        rw [Nat.log2_zero] at he habove
        omega
      have hfirst : 2 ^ m.log2 ≤ m := Nat.log2_self_le hpos
      refine .inr ⟨le_max_right _ _, ?_⟩
      rw [max_eq_left habove.le]
      calc (2 : ℝ) ^ ((m.log2 : ℤ) + 1 + e - 53 + 52) = 2 ^ m.log2 * 2 ^ e := by
            rw [← zpow_natCast, ← zpow_add₀ two_ne_zero]
            congr 1
            ring
        _ ≤ m * 2 ^ e := by
            refine mul_le_mul_of_nonneg_right ?_ (by positivity)
            exact_mod_cast hfirst
        _ ≤ y * 2 ^ e := mul_le_mul_of_nonneg_right hm (by positivity)

/-- The mantissa that is kept, rounded by what is cut off, is nearest to the exact result. -/
theorem isRounded_roundedMantissa {m : Nat} {e : Int} {a : Accuracy} {y : ℝ}
    (hy : Tells a (y - m)) (he : e ≤ Format.binary64.targetExponent (totalExponent m e)) :
    IsRounded (y * 2 ^ e)
      ((ExtendedMantissa.ofMantissaAndAccuracy m a >>>
        (Format.binary64.targetExponent (totalExponent m e) - e).toNat).roundedMantissa *
          2 ^ Format.binary64.targetExponent (totalExponent m e))
      (Format.binary64.targetExponent (totalExponent m e)) := by
  obtain ⟨hlow, hhigh⟩ := hy.bounds
  have hm : (0 : ℝ) ≤ m := Nat.cast_nonneg m
  obtain ⟨hbelow, habove⟩ := abs_lt_and_le_abs (by linarith) (by linarith : y < m + 1) he
  have hnear := abs_roundedMantissa_sub_le (holds_shiftRight (holds_ofMantissaAndAccuracy hy)
    (Format.binary64.targetExponent (totalExponent m e) - e).toNat)
  have hshift := shift_add_eq he
  generalize (Format.binary64.targetExponent (totalExponent m e) - e).toNat = k at hnear hshift ⊢
  generalize Format.binary64.targetExponent (totalExponent m e) = t at hbelow habove hshift ⊢
  have hnonneg : 0 ≤ y * 2 ^ e := mul_nonneg (by linarith) (by positivity)
  have hscale : y * 2 ^ e = y / 2 ^ k * 2 ^ t := by
    rw [← hshift, zpow_add₀ two_ne_zero, zpow_natCast]
    field_simp
  refine ⟨⟨_, by rw [Int.cast_natCast]⟩, ?_, ?_, ?_⟩
  · rw [hscale, ← sub_mul, abs_mul, abs_of_pos (by positivity : (0 : ℝ) < 2 ^ t)]
    calc _ ≤ 1 / 2 * (2 : ℝ) ^ t := mul_le_mul_of_nonneg_right hnear (by positivity)
      _ = 2 ^ t / 2 := by ring
  · rwa [abs_of_nonneg hnonneg]
  · rwa [abs_of_nonneg hnonneg]

/-! ## Values -/

/-- The factor that a sign stands for. -/
noncomputable def signum : Sign → ℝ
  | .positive => 1
  | .negative => -1

theorem abs_signum (s : Sign) : |signum s| = 1 := by
  cases s <;> simp [signum]

theorem abs_signum_mul (s : Sign) (x : ℝ) : |signum s * x| = |x| := by
  rw [abs_mul, abs_signum, one_mul]

/-- The number that a double stands for. An infinity and what is not a number count as zero. -/
noncomputable def value : UnpackedFloat → ℝ
  | .finite s m e _ => signum s * (m * (2 : ℕ) ^ e)
  | _ => 0

@[simp] theorem value_zero (s : Sign) : value (.zero s) = 0 := rfl

@[simp] theorem value_finite (s : Sign) {m : ℕ} (hm : 0 < m) (e : Int) :
    value (.finite s m e hm) = signum s * (m * 2 ^ e) := rfl

/-- A finite number has as many digits as there are places for. -/
def IsCanonical : UnpackedFloat → Prop
  | .finite _ m e _ => m < 2 ^ 53 ∧ -1074 ≤ e ∧ (2 ^ 52 ≤ m ∨ e = -1074)
  | _ => True

/-- The number is nearest to `x`, or it is an infinity and `x` is too large for another. -/
def IsNearest (x : ℝ) : UnpackedFloat → Prop
  | .notANumber => False
  | .infinity s => (2 : ℕ) ^ 1023 ≤ signum s * x
  | u => ∃ t, IsRounded x (value u) t

theorem isNearest_of_isFinite {x : ℝ} {u : UnpackedFloat} (hu : u.isFinite = true) :
    IsNearest x u ↔ ∃ t, IsRounded x (value u) t := by
  cases u with
  | notANumber => cases hu
  | infinity s => cases hu
  | zero s => rfl
  | finite s m e hm => rfl

/-! ## Rounding -/

/-- The digits of a nearest number number 53 or, down at the least exponent, fewer. Where the last
one carries up to the first they are those of a power of two. -/
theorem IsRounded.digits {x : ℝ} {n : ℕ} {t : ℤ} (h : IsRounded x (n * 2 ^ t) t) :
    n ≤ 2 ^ 53 ∧ (2 ^ 52 ≤ n ∨ t = -1074) := by
  have hunit : (0 : ℝ) < 2 ^ t := by positivity
  have hnear := abs_le.mp ((abs_abs_sub_abs_le _ _).trans h.abs_sub_le)
  have hlt := h.lt_two_zpow
  have hle := h.two_zpow_le
  rw [abs_of_nonneg (by positivity : 0 ≤ (n : ℝ) * 2 ^ t)] at hnear
  rw [zpow_add₀ two_ne_zero] at hlt hle
  constructor
  · have hmost : (n : ℝ) < 2 ^ 53 + 1 := by
      refine lt_of_mul_lt_mul_right ?_ hunit.le
      norm_num at hlt ⊢
      linarith
    exact Nat.lt_succ_iff.mp (by exact_mod_cast hmost)
  · refine hle.symm.imp_left fun ⟨_, hle⟩ => ?_
    have hleast : (2 : ℝ) ^ 52 < n + 1 := by
      refine lt_of_mul_lt_mul_right ?_ hunit.le
      norm_num at hle ⊢
      linarith
    exact Nat.lt_succ_iff.mp (by exact_mod_cast hleast)

theorem shiftToTargetExponent_of_lt {n : ℕ} {t : ℤ} (hn : n < 2 ^ 53) (ht : -1074 ≤ t) :
    shiftToTargetExponent .binary64 n t .exact = (⟨n, false, false⟩, t) := by
  have hlog : n.log2 ≤ 52 := by
    rcases Nat.eq_zero_or_pos n with rfl | hpos
    · rw [Nat.log2_zero]
      omega
    · exact Nat.lt_succ_iff.mp ((Nat.log2_lt hpos.ne').mpr hn)
  have hstay : (Format.binary64.targetExponent (totalExponent n t) - t).toNat = 0 := by
    rw [targetExponent_eq, totalExponent]
    omega
  rw [shiftToTargetExponent, shiftToExponent, hstay, Nat.cast_zero, add_zero]
  rfl

theorem shiftToTargetExponent_two_pow {t : ℤ} (ht : -1074 ≤ t) :
    shiftToTargetExponent .binary64 (2 ^ 53) t .exact = (⟨2 ^ 52, false, false⟩, t + 1) := by
  have hone : (Format.binary64.targetExponent (totalExponent (2 ^ 53) t) - t).toNat = 1 := by
    rw [targetExponent_eq, totalExponent, Nat.log2_two_pow]
    omega
  rw [shiftToTargetExponent, shiftToExponent, hone, Nat.cast_one]
  rfl

/-- The number with the given digits, of which there may be one too many after rounding. -/
def carry (s : Sign) (n : Nat) (t : Int) : UnpackedFloat :=
  let (m, e) := shiftToTargetExponent .binary64 n t .exact
  if h : m.mantissa = 0 then .zero s else .finite s m.mantissa e (Nat.pos_of_ne_zero h)

theorem roundWithAccuracy_eq_carry (s : Sign) (m : Nat) (e : Int) (a : Accuracy) :
    roundWithAccuracy .binary64 s m e a =
      carry s (shiftToTargetExponent .binary64 m e a).1.roundedMantissa
        (shiftToTargetExponent .binary64 m e a).2 :=
  rfl

theorem isNearest_carry (s : Sign) {x : ℝ} {n : ℕ} {t : ℤ} (h : IsRounded x (n * 2 ^ t) t) :
    IsCanonical (carry s n t) ∧ IsNearest (signum s * x) (carry s n t) := by
  have hle := h.le
  obtain ⟨hmost, hleast⟩ := h.digits
  have hsigned : IsRounded (signum s * x) (signum s * (n * 2 ^ t)) t := by
    cases s with
    | positive => simpa [signum] using h
    | negative => simpa [signum] using h.neg
  rcases hmost.lt_or_eq with hlt | rfl
  · rw [carry, shiftToTargetExponent_of_lt hlt hle]
    dsimp only
    split
    · next hzero =>
        refine ⟨trivial, t, ?_⟩
        rw [hzero, Nat.cast_zero, zero_mul, mul_zero] at hsigned
        exact hsigned
    · exact ⟨⟨hlt, hle, hleast⟩, t, hsigned⟩
  · rw [carry, shiftToTargetExponent_two_pow hle]
    dsimp only
    rw [dif_neg (by decide)]
    have hvalue : ((2 ^ 52 : ℕ) : ℝ) * 2 ^ (t + 1) = ((2 ^ 53 : ℕ) : ℝ) * 2 ^ t := by
      rw [zpow_add₀ two_ne_zero]
      norm_num
      ring
    rw [← hvalue] at hsigned
    exact ⟨⟨by decide, by omega, .inl le_rfl⟩, t, hsigned⟩

/-- What an operation knows about its exact result is enough to find a nearest number. -/
theorem isNearest_roundWithAccuracy (s : Sign) {m : Nat} {e : Int} {a : Accuracy} {y : ℝ}
    (hy : Tells a (y - m)) (he : e ≤ Format.binary64.targetExponent (totalExponent m e)) :
    IsCanonical (roundWithAccuracy .binary64 s m e a) ∧
      IsNearest (signum s * (y * 2 ^ e)) (roundWithAccuracy .binary64 s m e a) := by
  have hrounded := isRounded_roundedMantissa hy he
  rw [roundWithAccuracy_eq_carry, shiftToTargetExponent, shiftToExponent, shift_add_eq he]
  exact isNearest_carry s hrounded

end Roadworks.Binary64
