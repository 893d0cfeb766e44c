import Roadworks.Proofs.Scalar.Rounding
/-! # Arithmetic of doubles

Difference, sum, product, quotient and root of finite doubles are nearest to the exact results, and
writing the result down as a double changes nothing but what is too large for one. -/

namespace Roadworks.Binary64

open Float.Model Float.Model.UnpackedFloat

/-! ## Packing -/

variable {s : Sign} {m : Nat} {e : Int} {x : ℝ} {u : UnpackedFloat}

/-- The first digit of a number with all 53 digits is not written. -/
theorem unpack_packComponents_of_le (s : Sign) (hm : 0 < m) (hle : 2 ^ 52 ≤ m) (hlt : m < 2 ^ 53)
    {b : Nat} (hb : 0 < b) (hb' : b < 2047) :
    UnpackedFloat.unpack .binary64 (packComponents .binary64 s (BitVec.ofNat 11 b)
      (BitVec.ofNat 52 m)) = .finite s m ((b : ℤ) - 1075) hm := by
  have hbias : Format.binary64.exponentBias = 1023 := rfl
  have htoNat : (BitVec.ofNat 11 b).toNat = b := by
    rw [BitVec.toNat_ofNat, Nat.mod_eq_of_lt (by omega)]
  have hfinite : BitVec.ofNat 11 b ≠ -1#11 := by
    intro h
    rw [h] at htoNat
    change 2047 = b at htoNat
    omega
  have hnormal : BitVec.ofNat 11 b ≠ 0#11 := by
    intro h
    rw [h] at htoNat
    change 0 = b at htoNat
    omega
  have hdigits : (1#1 ++ BitVec.ofNat 52 m).toNat = m := by
    rw [BitVec.toNat_append, BitVec.toNat_ofNat, BitVec.toNat_ofNat,
      ← Nat.shiftLeft_add_eq_or_of_lt (Nat.mod_lt _ (by decide))]
    omega
  rw [unpack_packComponents, if_neg hfinite, if_neg hnormal]
  simp only [hdigits, htoNat, hbias]
  rfl

theorem unpack_packComponents_of_lt (s : Sign) (hm : 0 < m) (hlt : m < 2 ^ 52) :
    UnpackedFloat.unpack .binary64 (packComponents .binary64 s 0#11 (BitVec.ofNat 52 m)) =
      .finite s m (-1074) hm := by
  have htoNat : (BitVec.ofNat 52 m).toNat = m := by
    rw [BitVec.toNat_ofNat, Nat.mod_eq_of_lt hlt]
  have hne : BitVec.ofNat 52 m ≠ 0#52 := by
    intro h
    rw [h] at htoNat
    change 0 = m at htoNat
    omega
  rw [unpack_packComponents, if_neg (by decide), if_pos rfl, dif_neg hne]
  simp only [htoNat]
  rfl

/-- A number that is not too large is written down as it is. -/
theorem unpack_pack_of_le (hm : 0 < m) (h : IsCanonical (.finite s m e hm)) (he : e ≤ 971) :
    UnpackedFloat.unpack .binary64 (UnpackedFloat.pack .binary64 (.finite s m e hm)) =
      .finite s m e hm := by
  obtain ⟨hlt, hleast, hdigits⟩ := h
  have hbias : Format.binary64.exponentBias = 1023 := rfl
  have hbits : Format.binary64.mantissaBits = 53 := rfl
  rw [UnpackedFloat.pack]
  simp only [hbias, hbits]
  rw [if_neg (by omega)]
  rcases Nat.lt_or_ge m (2 ^ 52) with hfew | hall
  · have hlog : ¬ m.log2 + 1 = 53 := by
      have := (Nat.log2_lt hm.ne').mpr hfew
      omega
    obtain rfl := hdigits.resolve_left (not_le.mpr hfew)
    rw [if_neg hlog, unpack_packComponents_of_lt s hm hfew]
  · have hlog : m.log2 = 52 := (Nat.log2_eq_iff hm.ne').mpr ⟨hall, hlt⟩
    rw [if_pos (by omega), unpack_packComponents_of_le s hm hall hlt (by omega) (by omega)]
    congr 1
    omega

theorem unpack_pack_of_lt (s : Sign) (hm : 0 < m) (he : 971 < e) :
    UnpackedFloat.unpack .binary64 (UnpackedFloat.pack .binary64 (.finite s m e hm)) =
      .infinity s := by
  have hbias : Format.binary64.exponentBias = 1023 := rfl
  rw [UnpackedFloat.pack]
  simp only [hbias]
  rw [if_pos (by omega)]
  cases s <;> rfl

/-- A number is no smaller than a unit of its last place. -/
theorem IsRounded.le_abs_of_ne {X : ℝ} {t : ℤ} (h : IsRounded x X t) (hX : X ≠ 0) :
    2 ^ t ≤ |X| := by
  obtain ⟨n, rfl⟩ := h.exists_eq
  have hn : (1 : ℝ) ≤ |(n : ℝ)| := by
    rw [← Int.cast_abs]
    exact_mod_cast Int.one_le_abs (by rintro rfl; simp at hX)
  rw [abs_mul, abs_of_pos (by positivity : (0 : ℝ) < 2 ^ t)]
  exact le_mul_of_one_le_left (by positivity) hn

theorem IsRounded.half_le {X : ℝ} {t : ℤ} (h : IsRounded x X t) (hX : 0 < X) : X / 2 ≤ x := by
  have hunit := h.le_abs_of_ne hX.ne'
  have herror := (abs_le.mp h.abs_sub_le).2
  rw [abs_of_pos hX] at hunit
  linarith

/-- The digits of a number that is too large to be written. -/
theorem le_mul_two_zpow (hm : 2 ^ 52 ≤ m) (he : 972 ≤ e) : (2 : ℝ) ^ 1024 ≤ m * 2 ^ e := by
  have hdigits : (2 : ℝ) ^ 52 ≤ m := by exact_mod_cast hm
  have hplace : (2 : ℝ) ^ 972 ≤ 2 ^ e := by
    rw [← zpow_natCast]
    exact zpow_le_zpow_right₀ one_le_two he
  rw [show 1024 = 52 + 972 from rfl, pow_add]
  exact mul_le_mul hdigits hplace (by positivity) (by positivity)

/-- Writing a result down keeps it nearest. -/
theorem isNearest_unpack_pack (hu : IsCanonical u) (h : IsNearest x u) :
    IsNearest x (UnpackedFloat.unpack .binary64 (UnpackedFloat.pack .binary64 u)) := by
  cases u with
  | notANumber => exact h.elim
  | infinity s => cases s <;> exact h
  | zero s => cases s <;> exact h
  | finite s m e hm =>
      rcases le_or_gt e 971 with he | he
      · rwa [unpack_pack_of_le hm hu he]
      · obtain ⟨t, ht⟩ := h
        have hlarge := le_mul_two_zpow (hu.2.2.resolve_right (by omega)) he
        have hpos : (0 : ℝ) < m * 2 ^ e := by positivity
        rw [pow_succ] at hlarge
        rw [unpack_pack_of_lt s hm he, IsNearest]
        generalize (2 : ℝ) ^ 1023 = bound at hlarge ⊢
        cases s with
        | positive =>
            simp only [value_finite, signum, one_mul] at ht ⊢
            linarith [ht.half_le hpos]
        | negative =>
            have hneg := ht.neg
            simp only [value_finite, signum, neg_one_mul, neg_neg] at hneg ⊢
            linarith [hneg.half_le hpos]

/-! ## Operations -/

theorem isRounded_zero : IsRounded 0 0 (-1074) :=
  ⟨⟨0, by simp⟩, by simp; positivity, by simp, .inl rfl⟩

/-- A number is nearest to itself. -/
theorem isNearest_value (hu : IsCanonical u) (hfinite : u.isFinite = true) :
    IsNearest (value u) u := by
  refine (isNearest_of_isFinite hfinite).mpr ?_
  cases u with
  | notANumber => cases hfinite
  | infinity s => cases hfinite
  | zero s => exact ⟨-1074, isRounded_zero⟩
  | finite s m e hm =>
      obtain ⟨hlt, hle, hdigits⟩ := hu
      have habs : |signum s * (m * (2 : ℝ) ^ e)| = m * 2 ^ e := by
        rw [abs_signum_mul, abs_of_nonneg (by positivity)]
      refine ⟨e, ?_, ?_, ?_, ?_⟩
      · cases s with
        | positive => exact ⟨m, by simp [signum]⟩
        | negative => exact ⟨-m, by simp [signum]⟩
      · rw [sub_self, abs_zero]
        positivity
      · rw [value_finite, habs, zpow_add₀ two_ne_zero, mul_comm]
        refine mul_lt_mul_of_pos_left ?_ (by positivity)
        exact_mod_cast hlt
      · refine hdigits.symm.imp_right fun hfull => ⟨hle, ?_⟩
        rw [value_finite, habs, zpow_add₀ two_ne_zero, mul_comm]
        refine mul_le_mul_of_nonneg_right ?_ (by positivity)
        exact_mod_cast hfull

theorem isNearest_round (s : Sign) (hm : 0 < m) (e : Int) :
    IsCanonical (UnpackedFloat.round .binary64 s m e) ∧
      IsNearest (signum s * (m * 2 ^ e)) (UnpackedFloat.round .binary64 s m e) := by
  rw [UnpackedFloat.round, decreaseExponent, Nat.shiftLeft_eq]
  dsimp only
  have hlog (k : ℕ) : (m * 2 ^ k).log2 = m.log2 + k := by
    rw [Nat.log2_eq_iff (Nat.mul_pos hm (Nat.two_pow_pos k)).ne']
    have hfirst := Nat.log2_self_le hm.ne'
    have hlast : m < 2 ^ (m.log2 + 1) := Nat.lt_log2_self
    constructor
    · rw [pow_add]
      exact Nat.mul_le_mul_right _ hfirst
    · rw [add_right_comm, pow_add]
      exact Nat.mul_lt_mul_of_pos_right hlast (Nat.two_pow_pos k)
  generalize hk : (e - Format.binary64.targetExponent (totalExponent m e)).toNat = k
  have htotal : totalExponent (m * 2 ^ k) (e - k) = totalExponent m e := by
    rw [totalExponent, totalExponent, hlog]
    omega
  have hvalue : ((m * 2 ^ k : ℕ) : ℝ) * 2 ^ (e - k : ℤ) = m * 2 ^ e := by
    rw [zpow_sub₀ two_ne_zero, zpow_natCast]
    push_cast
    field_simp
  rw [← hvalue]
  refine isNearest_roundWithAccuracy s (sub_self _) ?_
  rw [htotal]
  omega

theorem isNearest_normalize (n : ℤ) (e : Int) (s : Sign) :
    IsCanonical (UnpackedFloat.normalize .binary64 n e s) ∧
      IsNearest (n * 2 ^ e) (UnpackedFloat.normalize .binary64 n e s) := by
  rcases lt_trichotomy n 0 with hn | rfl | hn
  · obtain ⟨k, rfl⟩ : ∃ k : ℕ, n = -k := ⟨(-n).toNat, by omega⟩
    have hround := isNearest_round .negative (m := k) (by omega) e
    simp only [UnpackedFloat.normalize, Int.compare_eq_lt.mpr hn]
    simpa [signum] using hround
  · rw [Int.cast_zero, zero_mul]
    exact ⟨trivial, -1074, isRounded_zero⟩
  · obtain ⟨k, rfl⟩ : ∃ k : ℕ, n = k := ⟨n.toNat, by omega⟩
    have hround := isNearest_round .positive (m := k) (by omega) e
    simp only [UnpackedFloat.normalize, Int.compare_eq_gt.mpr hn]
    simpa [signum] using hround

theorem finite_cases (h : u.isFinite = true) :
    (∃ s, u = .zero s) ∨ ∃ s m e, ∃ hm : 0 < m, u = .finite s m e hm := by
  cases u with
  | notANumber => cases h
  | infinity s => cases h
  | zero s => exact .inl ⟨s, rfl⟩
  | finite s m e hm => exact .inr ⟨s, m, e, hm, rfl⟩

theorem signum_mul (s t : Sign) : signum (s * t) = signum s * signum t := by
  cases s <;> cases t <;> simp [signum]

theorem signum_inv (s : Sign) : (signum s)⁻¹ = signum s := by
  cases s <;> norm_num [signum]

theorem signum_div (s t : Sign) : signum (s / t) = signum s / signum t := by
  rw [div_eq_mul_inv, signum_inv]
  exact signum_mul s t

theorem isNearest_zero (s : Sign) : IsCanonical (.zero s) ∧ IsNearest 0 (.zero s) :=
  ⟨trivial, -1074, isRounded_zero⟩

variable {v : UnpackedFloat}

/-- One of two factors has all its digits, or the product lies below the least exponent. -/
theorem isNearest_mul (hu : IsCanonical u) (hv : IsCanonical v) (hfu : u.isFinite = true)
    (hfv : v.isFinite = true) : IsCanonical (UnpackedFloat.mul .binary64 u v) ∧
      IsNearest (value u * value v) (UnpackedFloat.mul .binary64 u v) := by
  rcases finite_cases hfu with ⟨s, rfl⟩ | ⟨s, m, e, hm, rfl⟩
  · rw [value_zero, zero_mul]
    rcases finite_cases hfv with ⟨t, rfl⟩ | ⟨t, n, f, hn, rfl⟩
    · exact isNearest_zero _
    · exact isNearest_zero _
  rcases finite_cases hfv with ⟨t, rfl⟩ | ⟨t, n, f, hn, rfl⟩
  · rw [value_zero, mul_zero]
    exact isNearest_zero _
  have hplace : e + f ≤ Format.binary64.targetExponent (totalExponent (m * n) (e + f)) := by
    rw [targetExponent_eq, totalExponent]
    rcases le_or_gt (e + f) (-1074) with hleast | habove
    · omega
    · have hdigits : 2 ^ 52 ≤ m * n := by
        rcases hu.2.2 with hfull | rfl
        · exact hfull.trans (Nat.le_mul_of_pos_right m hn)
        · exact (hv.2.2.resolve_right (by omega)).trans (Nat.le_mul_of_pos_left n hm)
      have hlog := (Nat.le_log2 (Nat.mul_pos hm hn).ne').mpr hdigits
      omega
  have hround := isNearest_roundWithAccuracy (s * t) (m := m * n) (a := .exact) (sub_self _) hplace
  have hvalue : value (.finite s m e hm) * value (.finite t n f hn) =
      signum (s * t) * ((m * n : ℕ) * 2 ^ (e + f)) := by
    rw [value_finite, value_finite, signum_mul, zpow_add₀ two_ne_zero]
    push_cast
    ring
  rw [hvalue]
  exact hround

theorem tells_accuracyOfFraction {num den : Nat} (h : num < den) :
    Tells (accuracyOfFraction num den) (num / den) := by
  have hden : (0 : ℝ) < den := by
    exact_mod_cast Nat.zero_lt_of_lt h
  rw [accuracyOfFraction]
  split
  · next hzero => simp [Tells, hzero]
  · next hne =>
      have hnum : (0 : ℝ) < num := by
        exact_mod_cast Nat.pos_of_ne_zero hne
      have htwice : (num : ℝ) / den + num / den = 2 * num / den := by ring
      rcases lt_trichotomy (2 * num) den with hlt | heq | hgt
      · rw [Nat.compare_eq_lt.mpr hlt]
        have hlt : (2 : ℝ) * num < den := by exact_mod_cast hlt
        exact ⟨div_pos hnum hden, htwice ▸ (div_lt_one hden).mpr hlt⟩
      · rw [Nat.compare_eq_eq.mpr heq]
        have heq : (2 : ℝ) * num = den := by exact_mod_cast heq
        exact htwice.trans ((div_eq_one_iff_eq hden.ne').mpr heq)
      · rw [Nat.compare_eq_gt.mpr hgt]
        have hgt : (den : ℝ) < 2 * num := by exact_mod_cast hgt
        have hone : (num : ℝ) < den := by exact_mod_cast h
        exact ⟨htwice ▸ (one_lt_div hden).mpr hgt, (div_lt_one hden).mpr hone⟩

theorem cast_div_sub (k : Nat) {n : Nat} (hn : 0 < n) :
    (k / n : ℝ) - (k / n : ℕ) = (k % n : ℕ) / n := by
  have hne : (n : ℝ) ≠ 0 := by exact_mod_cast hn.ne'
  have hmod : ((n * (k / n) + k % n : ℕ) : ℝ) = k := by rw [Nat.div_add_mod]
  push_cast at hmod ⊢
  field_simp
  linarith

/-- A division goes on until the quotient has all its digits. -/
theorem le_targetExponent_divCore {m n : Nat} (hm : 0 < m) (hn : 0 < n) (e f : Int) :
    (divCore .binary64 m e n f).2.1 ≤ Format.binary64.targetExponent
      (totalExponent (divCore .binary64 m e n f).1 (divCore .binary64 m e n f).2.1) := by
  simp only [divCore, Nat.shiftLeft_eq, targetExponent_eq, totalExponent]
  generalize hT : min (e - f) (max ((m.log2 + 1 + e) - (n.log2 + 1 + f) - 53) (-1074)) = T
  rcases le_or_gt T (-1074) with hleast | habove
  · omega
  · have hfirst : 2 ^ m.log2 ≤ m := Nat.log2_self_le hm.ne'
    have hlast : n < 2 ^ (n.log2 + 1) := Nat.lt_log2_self
    have hshift : n.log2 + 1 + 52 ≤ m.log2 + (e - f - T).toNat := by omega
    have hdigits : 2 ^ 52 ≤ m * 2 ^ (e - f - T).toNat / n := by
      rw [Nat.le_div_iff_mul_le hn]
      calc 2 ^ 52 * n ≤ 2 ^ 52 * 2 ^ (n.log2 + 1) := Nat.mul_le_mul_left _ hlast.le
        _ = 2 ^ (n.log2 + 1 + 52) := by rw [← pow_add, add_comm]
        _ ≤ 2 ^ (m.log2 + (e - f - T).toNat) := Nat.pow_le_pow_right two_pos hshift
        _ = 2 ^ m.log2 * 2 ^ (e - f - T).toNat := pow_add _ _ _
        _ ≤ m * 2 ^ (e - f - T).toNat := Nat.mul_le_mul_right _ hfirst
    have hlog := (Nat.le_log2 (Nat.ne_of_gt (Nat.lt_of_lt_of_le (by decide) hdigits))).mpr hdigits
    omega

theorem isNearest_div (hfu : u.isFinite = true) (hfv : v.isFinite = true) (hne : value v ≠ 0) :
    IsCanonical (UnpackedFloat.div .binary64 u v) ∧
      IsNearest (value u / value v) (UnpackedFloat.div .binary64 u v) := by
  rcases finite_cases hfv with ⟨t, rfl⟩ | ⟨t, n, f, hn, rfl⟩
  · exact absurd rfl hne
  rcases finite_cases hfu with ⟨s, rfl⟩ | ⟨s, m, e, hm, rfl⟩
  · rw [value_zero, zero_div]
    exact isNearest_zero _
  have hplace := le_targetExponent_divCore hm hn e f
  simp only [UnpackedFloat.div, divCore, Nat.shiftLeft_eq] at hplace ⊢
  generalize hT : min (e - f) (Format.binary64.targetExponent
    (totalExponent m e - totalExponent n f)) = T at hplace ⊢
  have hrest : Tells (accuracyOfFraction (m * 2 ^ (e - f - T).toNat % n) n)
      ((m * 2 ^ (e - f - T).toNat : ℕ) / n - (m * 2 ^ (e - f - T).toNat / n : ℕ)) := by
    rw [cast_div_sub _ hn]
    exact tells_accuracyOfFraction (Nat.mod_lt _ hn)
  have hround := isNearest_roundWithAccuracy (s / t) hrest hplace
  have hscale : (2 : ℝ) ^ (e - f - T).toNat * 2 ^ T = 2 ^ e / 2 ^ f := by
    rw [← zpow_natCast, ← zpow_add₀ two_ne_zero, ← zpow_sub₀ two_ne_zero]
    congr 1
    omega
  have hvalue : value (.finite s m e hm) / value (.finite t n f hn) =
      signum (s / t) * ((m * 2 ^ (e - f - T).toNat : ℕ) / n * 2 ^ T) := by
    calc value (.finite s m e hm) / value (.finite t n f hn)
        = signum s / signum t * (m / n * (2 ^ e / 2 ^ f)) := by
          rw [value_finite, value_finite]
          ring
      _ = _ := by
          rw [← hscale, signum_div]
          push_cast
          ring
  rw [hvalue]
  exact hround

/-- A difference is that of the digits down to the smaller exponent. -/
theorem value_decreaseExponent (s : Sign) (hm : 0 < m) {f : Int} (hf : f ≤ e) :
    value (.finite s m e hm) = (s.apply (decreaseExponent m e f).1 : ℤ) * 2 ^ f := by
  have hscale : (2 : ℝ) ^ (e - f).toNat * 2 ^ f = 2 ^ e := by
    rw [← zpow_natCast, ← zpow_add₀ two_ne_zero]
    congr 1
    omega
  rw [decreaseExponent, value_finite, Nat.shiftLeft_eq, ← hscale]
  cases s with
  | positive =>
      simp only [signum, Sign.apply]
      push_cast
      ring
  | negative =>
      simp only [signum, Sign.apply]
      push_cast
      ring

theorem isNearest_sub (hu : IsCanonical u) (hv : IsCanonical v) (hfu : u.isFinite = true)
    (hfv : v.isFinite = true) : IsCanonical (UnpackedFloat.sub .binary64 u v) ∧
      IsNearest (value u - value v) (UnpackedFloat.sub .binary64 u v) := by
  rcases finite_cases hfu with ⟨s, rfl⟩ | ⟨s, m, e, hm, rfl⟩
  · rcases finite_cases hfv with ⟨t, rfl⟩ | ⟨t, n, f, hn, rfl⟩
    · rw [value_zero, value_zero, sub_zero, UnpackedFloat.sub]
      split
      · exact isNearest_zero _
      · exact isNearest_zero _
    · have hself := isNearest_value (u := .finite (-t) n f hn) hv rfl
      have hvalue : value (.zero s) - value (.finite t n f hn) = value (.finite (-t) n f hn) := by
        rw [value_zero, value_finite, value_finite]
        cases t <;> simp [signum]
      rw [hvalue]
      exact ⟨hv, hself⟩
  rcases finite_cases hfv with ⟨t, rfl⟩ | ⟨t, n, f, hn, rfl⟩
  · rw [value_zero, sub_zero]
    exact ⟨hu, isNearest_value hu rfl⟩
  rw [value_decreaseExponent s hm (min_le_left e f), value_decreaseExponent t hn (min_le_right e f),
    ← sub_mul, ← Int.cast_sub]
  exact isNearest_normalize _ _ _

theorem isNearest_add (hu : IsCanonical u) (hv : IsCanonical v) (hfu : u.isFinite = true)
    (hfv : v.isFinite = true) : IsCanonical (UnpackedFloat.add .binary64 u v) ∧
      IsNearest (value u + value v) (UnpackedFloat.add .binary64 u v) := by
  rcases finite_cases hfu with ⟨s, rfl⟩ | ⟨s, m, e, hm, rfl⟩
  · rcases finite_cases hfv with ⟨t, rfl⟩ | ⟨t, n, f, hn, rfl⟩
    · rw [value_zero, value_zero, add_zero, UnpackedFloat.add]
      split
      · exact isNearest_zero _
      · exact isNearest_zero _
    · rw [value_zero, zero_add]
      exact ⟨hv, isNearest_value hv rfl⟩
  rcases finite_cases hfv with ⟨t, rfl⟩ | ⟨t, n, f, hn, rfl⟩
  · rw [value_zero, add_zero]
    exact ⟨hu, isNearest_value hu rfl⟩
  rw [value_decreaseExponent s hm (min_le_left e f), value_decreaseExponent t hn (min_le_right e f),
    ← add_mul, ← Int.cast_add]
  exact isNearest_normalize _ _ _

/-- What is left over beside the largest square tells on which side of the middle the root lies. -/
theorem tells_sqrt (k : Nat) :
    Tells (if k - Nat.sqrt k * Nat.sqrt k = 0 then .exact
      else .inexact (if k - Nat.sqrt k * Nat.sqrt k ≤ Nat.sqrt k then .lt else .gt))
      (√(k : ℝ) - Nat.sqrt k) := by
  have hle : Nat.sqrt k * Nat.sqrt k ≤ k := Nat.sqrt_le k
  have hlt : k < (Nat.sqrt k + 1) * (Nat.sqrt k + 1) := Nat.lt_succ_sqrt k
  generalize Nat.sqrt k = r at hle hlt ⊢
  have hr : (0 : ℝ) ≤ r := Nat.cast_nonneg r
  split
  · next hsquare =>
      have hk : k = r * r := by omega
      rw [hk, Nat.cast_mul, Real.sqrt_mul_self hr]
      exact sub_self _
  · next hne =>
      have hpos : (r : ℝ) ^ 2 < k := by
        rw [pow_two]
        exact_mod_cast (show r * r < k by omega)
      have hbelow : (k : ℝ) < (r + 1) ^ 2 := by
        rw [pow_two]
        exact_mod_cast hlt
      split
      · next hrest =>
          have hhalf : (k : ℝ) ≤ r * r + r := by exact_mod_cast (show k ≤ r * r + r by omega)
          have hroot : √(k : ℝ) < r + 1 / 2 := by
            rw [Real.sqrt_lt' (by positivity)]
            nlinarith
          exact ⟨sub_pos.mpr (Real.lt_sqrt_of_sq_lt hpos), by linarith⟩
      · next hrest =>
          have hhalf : (r : ℝ) * r + r + 1 ≤ k := by
            exact_mod_cast (show r * r + r + 1 ≤ k by omega)
          have hroot : r + 1 / 2 < √(k : ℝ) := Real.lt_sqrt_of_sq_lt (by nlinarith)
          have hnext : √(k : ℝ) < r + 1 := (Real.sqrt_lt' (by positivity)).mpr hbelow
          exact ⟨by linarith, by linarith⟩

/-- The root is found from a number with twice the digits that it needs. -/
theorem le_targetExponent_sqrtCore (hm : 0 < m) (e : Int) :
    (sqrtCore .binary64 m e).2.1 ≤ Format.binary64.targetExponent
      (totalExponent (sqrtCore .binary64 m e).1 (sqrtCore .binary64 m e).2.1) := by
  simp only [sqrtCore, Nat.shiftLeft_eq, targetExponent_eq, totalExponent]
  generalize hT : min (e.ediv 2) (max ((((m.log2 : ℤ) + 1 + e) + 1).ediv 2 - 53) (-1074)) = T
  rcases le_or_gt T (-1074) with hleast | habove
  · omega
  · have hplace : T ≤ ((m.log2 : ℤ) + 1 + e + 1) / 2 - 53 := by
      change min _ (max (((m.log2 : ℤ) + 1 + e + 1) / 2 - 53) (-1074)) = T at hT
      omega
    have hfirst : 2 ^ m.log2 ≤ m := Nat.log2_self_le hm.ne'
    have hdigits : 2 ^ 52 * 2 ^ 52 ≤ m * 2 ^ (e - 2 * T).toNat := by
      calc 2 ^ 52 * 2 ^ 52 ≤ 2 ^ (m.log2 + (e - 2 * T).toNat) := by
            rw [← pow_add]
            exact Nat.pow_le_pow_right two_pos (by omega)
        _ = 2 ^ m.log2 * 2 ^ (e - 2 * T).toNat := pow_add _ _ _
        _ ≤ m * 2 ^ (e - 2 * T).toNat := Nat.mul_le_mul_right _ hfirst
    have hroot : 2 ^ 52 ≤ Nat.sqrt (m * 2 ^ (e - 2 * T).toNat) := Nat.le_sqrt.mpr hdigits
    have hlog := (Nat.le_log2 (Nat.ne_of_gt (Nat.lt_of_lt_of_le (by decide) hroot))).mpr hroot
    omega

theorem isNearest_sqrt (hfu : u.isFinite = true) (hu : 0 ≤ value u) :
    IsCanonical (UnpackedFloat.sqrt .binary64 u) ∧
      IsNearest √(value u) (UnpackedFloat.sqrt .binary64 u) := by
  rcases finite_cases hfu with ⟨s, rfl⟩ | ⟨s, m, e, hm, rfl⟩
  · rw [value_zero, Real.sqrt_zero]
    exact isNearest_zero s
  cases s with
  | negative =>
      have hpos : (0 : ℝ) < m * 2 ^ e := by positivity
      simp only [value_finite, signum] at hu
      linarith
  | positive =>
      have hplace := le_targetExponent_sqrtCore hm e
      simp only [UnpackedFloat.sqrt, sqrtCore, Nat.shiftLeft_eq] at hplace ⊢
      generalize hT : min (e.ediv 2) (Format.binary64.targetExponent
        ((totalExponent m e + 1).ediv 2)) = T at hplace ⊢
      have hround := isNearest_roundWithAccuracy .positive
        (tells_sqrt (m * 2 ^ (e - 2 * T).toNat)) hplace
      have hhalf : 2 * T ≤ e := by
        change min (e / 2) _ = T at hT
        omega
      have hscale : (m : ℝ) * 2 ^ e = (m * 2 ^ (e - 2 * T).toNat : ℕ) * (2 ^ T) ^ 2 := by
        push_cast
        rw [← zpow_natCast, ← zpow_natCast, ← zpow_mul, mul_assoc, ← zpow_add₀ two_ne_zero]
        congr 2
        push_cast
        omega
      have hvalue : √(value (.finite .positive m e hm)) =
          signum .positive * (√((m * 2 ^ (e - 2 * T).toNat : ℕ) : ℝ) * 2 ^ T) := by
        rw [value_finite, signum, one_mul, one_mul, hscale, Real.sqrt_mul (Nat.cast_nonneg _),
          Real.sqrt_sq (by positivity)]
      rw [hvalue]
      exact hround

end Roadworks.Binary64
