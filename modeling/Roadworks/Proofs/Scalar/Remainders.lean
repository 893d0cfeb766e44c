import Roadworks.Proofs.Scalar.Order
/-! # Remainders of doubles

The remainder of a division keeps no more digits than one of the two numbers has, so it is exact.
Where the divisor is the larger of the two it is the dividend, with its sign also if it is zero. -/

namespace Roadworks

namespace Binary64

open Float.Model Float.Model.UnpackedFloat

/-! ## Numbers with few digits -/

namespace IsRounded

variable {x X : ℝ} {t : ℤ}

theorem eq_of_eq_mul (h : IsRounded x X t) {n : ℤ} (hx : x = n * 2 ^ t) : X = x := by
  rw [hx] at h ⊢
  exact le_antisymm (h.le_mul le_rfl) (h.mul_le le_rfl)

/-- Nothing is rounded where there are places for all digits. -/
theorem eq_of_digits (h : IsRounded x X t) {n e : ℤ} (hx : x = n * 2 ^ e) (hn : |n| < 2 ^ 53)
    (he : -1074 ≤ e) : X = x := by
  have hte : t ≤ e := by
    rcases h.two_zpow_le with rfl | ⟨_, hle⟩
    · exact he
    · have hdigits : |(n : ℝ)| < 2 ^ (53 : ℤ) := by exact_mod_cast hn
      have hlt : |x| < 2 ^ (53 + e) := by
        rw [hx, abs_mul, abs_of_pos (by positivity : (0 : ℝ) < 2 ^ e), zpow_add₀ two_ne_zero]
        exact mul_lt_mul_of_pos_right hdigits (by positivity)
      have hplace := (zpow_lt_zpow_iff_right₀ one_lt_two).mp (hle.trans_lt hlt)
      omega
  obtain ⟨k, rfl⟩ : ∃ k : ℕ, e = t + k := ⟨(e - t).toNat, by omega⟩
  refine h.eq_of_eq_mul (n := n * 2 ^ k) ?_
  rw [hx, zpow_add₀ two_ne_zero, zpow_natCast]
  push_cast
  ring

end IsRounded

theorem shiftRight_zero (k : Nat) :
    (ExtendedMantissa.mk 0 false false) >>> k = ExtendedMantissa.mk 0 false false := by
  induction k with
  | zero => rfl
  | succ k ih =>
      change ExtendedMantissa.shiftRightOne (ExtendedMantissa.mk 0 false false >>> k) = _
      rw [ih]
      rfl

theorem exists_shiftToTargetExponent_zero (e : Int) :
    ∃ t, shiftToTargetExponent .binary64 0 e .exact = (⟨0, false, false⟩, t) := by
  rw [shiftToTargetExponent, shiftToExponent]
  generalize (Format.binary64.targetExponent (totalExponent 0 e) - e).toNat = k
  exact ⟨e + k, congrArg (·, e + (k : Int)) (shiftRight_zero k)⟩

theorem round_zero (s : Sign) (e : Int) : UnpackedFloat.round .binary64 s 0 e = .zero s := by
  rw [UnpackedFloat.round, decreaseExponent, Nat.zero_shiftLeft]
  dsimp only
  generalize e - _ = e'
  obtain ⟨t, ht⟩ := exists_shiftToTargetExponent_zero e'
  obtain ⟨t', ht'⟩ := exists_shiftToTargetExponent_zero t
  have hrounded : (ExtendedMantissa.mk 0 false false).roundedMantissa = 0 := rfl
  rw [roundWithAccuracy_eq_carry, ht, hrounded, carry, ht']
  rfl

/-- A double is made of its parts exactly if there are places for all digits. -/
theorem toReal_ofParts (s : Sign) {m : Nat} {e : Int} (hm : m < 2 ^ 53) (he : -1074 ≤ e)
    (hsize : (m : ℝ) * 2 ^ e < 2 ^ 1023) :
    (ofParts s m e).isFinite = true ∧ toReal (ofParts s m e) = signum s * (m * 2 ^ e) := by
  rcases Nat.eq_zero_or_pos m with rfl | hpos
  · have hunpack : (ofParts s 0 e).toModel.unpack = .zero s := by
      change UnpackedFloat.unpack .binary64 (UnpackedFloat.pack .binary64
        (UnpackedFloat.round .binary64 s 0 e)) = _
      rw [round_zero]
      cases s <;> rfl
    constructor
    · change UnpackedFloat.isFinite (ofParts s 0 e).toModel.unpack = true
      rw [hunpack]
      rfl
    · rw [toReal, hunpack, value_zero, Nat.cast_zero, zero_mul, mul_zero]
  · obtain ⟨hcanonical, hnearest⟩ := isNearest_round s hpos e
    have hnear : Approximates (ofParts s m e) (signum s * (m * 2 ^ e)) :=
      isNearest_unpack_pack hcanonical hnearest
    have hfinite := hnear.isFinite (by
      rwa [abs_signum_mul, abs_of_nonneg (by positivity)])
    obtain ⟨t, ht⟩ := (approximates_iff hfinite).mp hnear
    refine ⟨hfinite, ?_⟩
    cases s with
    | positive => exact ht.eq_of_digits (n := m) (by simp [signum]) (by simpa using hm) he
    | negative => exact ht.eq_of_digits (n := -m) (by simp [signum]) (by simpa using hm) he

/-! ## The remainder -/

variable {x y : Float} {s t : Sign} {m n : Nat} {e f : Int}

theorem rem_zero (hx : x.toModel.unpack = .zero s) (hy : y.isFinite = true) (hne : toReal y ≠ 0) :
    rem x y = x := by
  rcases finite_cases hy with ⟨t, hv⟩ | ⟨t, n, f, hn, hv⟩
  · rw [toReal, hv] at hne
    exact absurd rfl hne
  · simp only [rem, hx, hv]

theorem rem_finite {hm : 0 < m} {hn : 0 < n} (hx : x.toModel.unpack = .finite s m e hm)
    (hy : y.toModel.unpack = .finite t n f hn) : rem x y =
      ofParts s ((m * 2 ^ (e - min e f).toNat) % (n * 2 ^ (f - min e f).toNat)) (min e f) := by
  simp only [rem, hx, hy, Nat.shiftLeft_eq]

theorem mul_two_pow_sub (m : Nat) (h : f ≤ e) :
    (m : ℝ) * 2 ^ e = (m * 2 ^ (e - f).toNat : ℕ) * 2 ^ f := by
  obtain ⟨k, rfl⟩ : ∃ k : ℕ, e = f + k := ⟨(e - f).toNat, by omega⟩
  rw [add_sub_cancel_left, Int.toNat_natCast, zpow_add₀ two_ne_zero]
  push_cast
  rw [zpow_natCast]
  ring

/-- The remainder of whole multiples of one unit. -/
theorem isRemainder_mod (s t : Sign) (a : ℕ) {b : ℕ} (hb : 0 < b) {p : ℝ} (hp : 0 < p) :
    IsRemainder (signum s * (a * p)) (signum t * (b * p)) (signum s * ((a % b : ℕ) * p)) := by
  have hlt : ((a % b : ℕ) : ℝ) * p < b * p :=
    mul_lt_mul_of_pos_right (by exact_mod_cast Nat.mod_lt a hb) hp
  have hle : ((a % b : ℕ) : ℝ) * p ≤ a * p :=
    mul_le_mul_of_nonneg_right (by exact_mod_cast Nat.mod_le a b) hp.le
  have hnonneg : (0 : ℝ) ≤ (a % b : ℕ) * p := mul_nonneg (Nat.cast_nonneg _) hp.le
  have hsplit : (a : ℝ) = (a % b : ℕ) + (a / b : ℕ) * b := by
    exact_mod_cast (Nat.mod_add_div' a b).symm
  generalize a % b = r at *
  generalize a / b = k at *
  constructor
  case abs_lt =>
    have hpos : (0 : ℝ) ≤ b * p := hnonneg.trans hlt.le
    rwa [abs_signum_mul, abs_signum_mul, abs_of_nonneg hnonneg, abs_of_nonneg hpos]
  case nonneg =>
    intro h
    cases s with
    | positive => simpa [signum] using hnonneg
    | negative =>
        simp only [signum] at h ⊢
        linarith
  case nonpos =>
    intro h
    cases s with
    | positive =>
        simp only [signum] at h ⊢
        linarith
    | negative => simpa [signum] using hnonneg
  case exists_eq =>
    refine ⟨(s * t).apply k, ?_⟩
    rw [hsplit]
    cases s <;> cases t <;> simp [Sign.apply, signum] <;> ring

/-- One of two numbers has the smaller unit, and the remainder has no more digits than it. -/
theorem mod_lt_two_pow (hm : m < 2 ^ 53) (hn : 0 < n) (hn' : n < 2 ^ 53) (e f : Int) :
    (m * 2 ^ (e - min e f).toNat) % (n * 2 ^ (f - min e f).toNat) < 2 ^ 53 := by
  rcases le_total e f with hef | hfe
  · rw [min_eq_left hef, sub_self, Int.toNat_zero, pow_zero, mul_one]
    exact (Nat.mod_le _ _).trans_lt hm
  · rw [min_eq_right hfe, sub_self, Int.toNat_zero, pow_zero, mul_one]
    exact (Nat.mod_lt _ hn).trans hn'

/-- The remainder is exact. -/
theorem isRemainder_rem (hx : x.isFinite = true) (hy : y.isFinite = true) (hne : toReal y ≠ 0)
    (hsize : |toReal y| < 2 ^ 1023) :
    (rem x y).isFinite = true ∧ IsRemainder (toReal x) (toReal y) (toReal (rem x y)) := by
  rcases finite_cases hx with ⟨s, hu⟩ | ⟨s, m, e, hm, hu⟩
  · rw [rem_zero hu hy hne]
    have hzero : toReal x = 0 := by rw [toReal, hu, value_zero]
    refine ⟨hx, ?_, id, id, 0, by simp⟩
    rw [hzero, abs_zero]
    exact abs_pos.mpr hne
  rcases finite_cases hy with ⟨t, hv⟩ | ⟨t, n, f, hn, hv⟩
  · rw [toReal, hv] at hne
    exact absurd rfl hne
  have hcx : IsCanonical x.toModel.unpack := isCanonical_unpack _
  have hcy : IsCanonical y.toModel.unpack := isCanonical_unpack _
  rw [hu] at hcx
  rw [hv] at hcy
  have hvx : toReal x = signum s * ((m * 2 ^ (e - min e f).toNat : ℕ) * 2 ^ min e f) := by
    rw [toReal, hu, value_finite, mul_two_pow_sub m (min_le_left e f)]
  have hvy : toReal y = signum t * ((n * 2 ^ (f - min e f).toNat : ℕ) * 2 ^ min e f) := by
    rw [toReal, hv, value_finite, mul_two_pow_sub n (min_le_right e f)]
  have hremainder := isRemainder_mod s t (m * 2 ^ (e - min e f).toNat)
    (Nat.mul_pos hn (Nat.two_pow_pos (f - min e f).toNat))
    (by positivity : (0 : ℝ) < 2 ^ min e f)
  rw [← hvx, ← hvy] at hremainder
  rw [rem_finite hu hv]
  have hlt := hremainder.abs_lt.trans hsize
  rw [abs_signum_mul, abs_of_nonneg (by positivity)] at hlt
  obtain ⟨hfinite, hvalue⟩ := toReal_ofParts s (mod_lt_two_pow hcx.1 hn hcy.1 e f)
    (le_min hcx.2.1 hcy.2.1) hlt
  rw [hvalue]
  exact ⟨hfinite, hremainder⟩

theorem eq_of_unpack_eq (h : x.toModel.unpack = y.toModel.unpack) : x = y := by
  obtain ⟨⟨a, ha⟩⟩ := x
  obtain ⟨⟨b, hb⟩⟩ := y
  obtain rfl : a = b := UInt64.toBitVec_inj.mp ((unpack_inj_of_valid ha hb).mp h)
  rfl

/-- A number is its own remainder by a larger one. -/
theorem rem_eq_self (hx : x.isFinite = true) (hy : y.isFinite = true) (hsize : |toReal y| < 2 ^ 1023)
    (h : |toReal x| < |toReal y|) : rem x y = x := by
  have hne : toReal y ≠ 0 := abs_pos.mp ((abs_nonneg _).trans_lt h)
  by_cases hzero : toReal x = 0
  · obtain ⟨s, hu⟩ := value_eq_zero hx hzero
    exact rem_zero hu hy hne
  · obtain ⟨hfinite, hremainder⟩ := isRemainder_rem hx hy hne hsize
    have hsame := hremainder.eq_of_abs_lt h
    refine eq_of_unpack_eq (eq_of_value_eq (isCanonical_unpack _) (isCanonical_unpack _) hfinite hx
      ?_ hsame)
    rwa [← toReal, hsame]

end Binary64

end Roadworks
