import Roadworks.Proofs.Scalar.Arithmetic
/-! # Doubles as numbers

A finite double stands for a real number. Comparing doubles compares these, the results of the
operations are nearest to the exact ones, and doubles that differ lie apart by a unit of the last
place. -/

namespace Roadworks.Binary64

open Float.Model Float.Model.UnpackedFloat

variable {s : Sign} {m : Nat} {e : Int} {x : ℝ} {u v : UnpackedFloat}

/-! ## Values -/

theorem isCanonical_unpack (b : BitVec Format.binary64.numBits) :
    IsCanonical (UnpackedFloat.unpack .binary64 b) := by
  have hmantissa : (unpackMantissa b).toNat < 2 ^ 52 := (unpackMantissa b).isLt
  have hbias : Format.binary64.exponentBias = 1023 := rfl
  simp only [UnpackedFloat.unpack, hbias]
  split
  · split <;> trivial
  · split
    · next hexponent =>
        split
        · trivial
        · rw [hexponent]
          exact ⟨by omega, by decide, .inr (by decide)⟩
    · next hexponent =>
        have hne : (unpackExponent b).toNat ≠ 0 := fun h => hexponent (BitVec.eq_of_toNat_eq h)
        have hdigits : (1#1 ++ unpackMantissa b).toNat = 2 ^ 52 + (unpackMantissa b).toNat := by
          rw [BitVec.toNat_append, ← Nat.shiftLeft_add_eq_or_of_lt hmantissa]
          rfl
        refine ⟨(1#1 ++ unpackMantissa b).isLt, by omega, .inl ?_⟩
        rw [hdigits]
        exact Nat.le_add_right _ _

/-- The number that a double stands for. -/
noncomputable def toReal (x : Float) : ℝ := value x.toModel.unpack

/-- The double is nearest to `x`, or it is an infinity and `x` is too large for another. -/
def Approximates (z : Float) (x : ℝ) : Prop := IsNearest x z.toModel.unpack

theorem approximates_iff {z : Float} (hz : z.isFinite = true) {x : ℝ} :
    Approximates z x ↔ ∃ t, IsRounded x (toReal z) t :=
  isNearest_of_isFinite hz

namespace Approximates

variable {z : Float} {x : ℝ}

theorem cases (h : Approximates z x) :
    (∃ s, z.toModel.unpack = .infinity s) ∨ z.isFinite = true := by
  rw [Approximates] at h
  change (∃ s, z.toModel.unpack = .infinity s) ∨ z.toModel.unpack.isFinite = true
  cases hu : z.toModel.unpack with
  | notANumber =>
      rw [hu] at h
      exact h.elim
  | infinity s => exact .inl ⟨s, rfl⟩
  | zero s => exact .inr rfl
  | finite s m e hm => exact .inr rfl

theorem isFinite (h : Approximates z x) (hx : |x| < 2 ^ 1023) : z.isFinite = true := by
  refine h.cases.resolve_left fun ⟨s, hu⟩ => ?_
  rw [Approximates, hu] at h
  exact absurd (h.trans (le_abs_self _)) (not_le.mpr ((abs_signum_mul s x).symm ▸ hx))

end Approximates

variable {x y z : Float}

theorem approximates_mul (hx : x.isFinite = true) (hy : y.isFinite = true) :
    Approximates (x * y) (toReal x * toReal y) := by
  obtain ⟨hcanonical, hnearest⟩ :=
    isNearest_mul (isCanonical_unpack _) (isCanonical_unpack _) hx hy
  exact isNearest_unpack_pack hcanonical hnearest

theorem approximates_sub (hx : x.isFinite = true) (hy : y.isFinite = true) :
    Approximates (x - y) (toReal x - toReal y) := by
  obtain ⟨hcanonical, hnearest⟩ :=
    isNearest_sub (isCanonical_unpack _) (isCanonical_unpack _) hx hy
  exact isNearest_unpack_pack hcanonical hnearest

theorem approximates_add (hx : x.isFinite = true) (hy : y.isFinite = true) :
    Approximates (x + y) (toReal x + toReal y) := by
  obtain ⟨hcanonical, hnearest⟩ :=
    isNearest_add (isCanonical_unpack _) (isCanonical_unpack _) hx hy
  exact isNearest_unpack_pack hcanonical hnearest

theorem approximates_div (hx : x.isFinite = true) (hy : y.isFinite = true) (hne : toReal y ≠ 0) :
    Approximates (x / y) (toReal x / toReal y) := by
  obtain ⟨hcanonical, hnearest⟩ := isNearest_div hx hy hne
  exact isNearest_unpack_pack hcanonical hnearest

theorem approximates_sqrt (hx : x.isFinite = true) (hnonneg : 0 ≤ toReal x) :
    Approximates x.sqrt √(toReal x) := by
  obtain ⟨hcanonical, hnearest⟩ := isNearest_sqrt hx hnonneg
  exact isNearest_unpack_pack hcanonical hnearest

/-! ## Order -/

/-- The place of the last digit decides first. -/
theorem mul_two_zpow_lt {m n : Nat} {e f : Int} (hm : m < 2 ^ 53) (he : -1074 ≤ e)
    (hn : 2 ^ 52 ≤ n ∨ f = -1074) (h : e < f) : (m : ℝ) * 2 ^ e < n * 2 ^ f := by
  have hm : (m : ℝ) < 2 ^ 53 := by exact_mod_cast hm
  have hn : (2 : ℝ) ^ 52 ≤ n := by exact_mod_cast hn.resolve_right (by omega)
  calc (m : ℝ) * 2 ^ e < 2 ^ 53 * 2 ^ e := mul_lt_mul_of_pos_right hm (by positivity)
    _ = 2 ^ 52 * 2 ^ (e + 1) := by
        rw [zpow_add₀ two_ne_zero]
        ring
    _ ≤ n * 2 ^ f := mul_le_mul hn (zpow_le_zpow_right₀ one_le_two h) (by positivity)
        (by positivity)

theorem mul_two_zpow_le {m n : Nat} {e f : Int} (hm : m < 2 ^ 53) (he : -1074 ≤ e)
    (hn : 2 ^ 52 ≤ n ∨ f = -1074) (h : ((compare e f).then (compare m n)).isLE = true) :
    (m : ℝ) * 2 ^ e ≤ n * 2 ^ f := by
  rcases lt_trichotomy e f with hlt | rfl | hgt
  · exact (mul_two_zpow_lt hm he hn hlt).le
  · rw [Int.compare_eq_eq.mpr rfl, Ordering.then, Nat.isLE_compare] at h
    refine mul_le_mul_of_nonneg_right ?_ (by positivity)
    exact_mod_cast h
  · rw [Int.compare_eq_gt.mpr hgt] at h
    cases h

theorem toReal_le_of_le (hx : x.isFinite = true) (hy : y.isFinite = true) (h : x ≤ y) :
    toReal x ≤ toReal y := by
  have hcx : IsCanonical x.toModel.unpack := isCanonical_unpack _
  have hcy : IsCanonical y.toModel.unpack := isCanonical_unpack _
  rw [le_iff, UnpackedFloat.le] at h
  rw [toReal, toReal]
  rcases finite_cases hx with ⟨s, hu⟩ | ⟨s, m, e, hm, hu⟩
  · rcases finite_cases hy with ⟨t, hv⟩ | ⟨t, n, f, hn, hv⟩
    · rw [hu, hv]
      exact le_rfl
    · rw [hu, hv] at h ⊢
      cases t with
      | negative => cases h
      | positive =>
          simp only [value_zero, value_finite, signum]
          positivity
  · rw [hu] at h hcx ⊢
    rcases finite_cases hy with ⟨t, hv⟩ | ⟨t, n, f, hn, hv⟩
    · rw [hv] at h ⊢
      cases s with
      | negative =>
          simp only [value_zero, value_finite, signum]
          rw [neg_one_mul, Left.neg_nonpos_iff]
          positivity
      | positive => cases h
    · rw [hv] at h hcy ⊢
      simp only [value_finite]
      cases s with
      | negative =>
          cases t with
          | negative =>
              have hswap : ((compare f e).then (compare n m)).isLE = true := by
                rw [← Int.compare_swap, ← Nat.compare_swap, ← Ordering.swap_then]
                exact h
              have hle := mul_two_zpow_le hcy.1 hcy.2.1 hcx.2.2 hswap
              simp only [signum]
              linarith
          | positive =>
              have hleft : (0 : ℝ) ≤ m * 2 ^ e := by positivity
              have hright : (0 : ℝ) ≤ n * 2 ^ f := by positivity
              simp only [signum]
              linarith
      | positive =>
          cases t with
          | negative => cases h
          | positive => simpa [signum] using mul_two_zpow_le hcx.1 hcx.2.1 hcy.2.2 h

/-! ## Doubles lie apart -/

/-- Two numbers differ by a unit of the last place of one of them at least. -/
theorem min_lt_mul_abs_sub (hu : IsCanonical u) (hv : IsCanonical v) (hfu : u.isFinite = true)
    (hfv : v.isFinite = true) (hne : value u ≠ value v) :
    min |value u| |value v| < 2 ^ 53 * |value u - value v| := by
  have hpos : 0 < 2 ^ 53 * |value u - value v| := by
    have := abs_pos.mpr (sub_ne_zero.mpr hne)
    positivity
  rcases finite_cases hfu with ⟨s, rfl⟩ | ⟨s, m, e, hm, rfl⟩
  · exact (min_le_left _ _).trans_lt (by simpa using hpos)
  rcases finite_cases hfv with ⟨t, rfl⟩ | ⟨t, n, f, hn, rfl⟩
  · exact (min_le_right _ _).trans_lt (by simpa using hpos)
  have hunit : (2 : ℝ) ^ min e f ≤
      |value (.finite s m e hm) - value (.finite t n f hn)| := by
    rw [value_decreaseExponent s hm (min_le_left e f),
      value_decreaseExponent t hn (min_le_right e f)] at hne ⊢
    rw [← sub_mul, ← Int.cast_sub, abs_mul, ← Int.cast_abs,
      abs_of_pos (by positivity : (0 : ℝ) < 2 ^ min e f)]
    refine le_mul_of_one_le_left (by positivity) ?_
    exact_mod_cast Int.one_le_abs (sub_ne_zero.mpr fun h => hne (by rw [h]))
  have hbound (r : Sign) (k : ℕ) (g : ℤ) (hk : k < 2 ^ 53) :
      |signum r * (k * (2 : ℝ) ^ g)| < 2 ^ 53 * 2 ^ g := by
    rw [abs_signum_mul, abs_of_nonneg (by positivity)]
    refine mul_lt_mul_of_pos_right ?_ (by positivity)
    exact_mod_cast hk
  refine lt_of_lt_of_le ?_ (mul_le_mul_of_nonneg_left hunit (by positivity))
  rcases le_total e f with hef | hfe
  · rw [min_eq_left hef]
    exact (min_le_left _ _).trans_lt (hbound s m e hu.1)
  · rw [min_eq_right hfe]
    exact (min_le_right _ _).trans_lt (hbound t n f hv.1)

/-- A number that is not zero is written in one way. -/
theorem eq_of_value_eq (hu : IsCanonical u) (hv : IsCanonical v) (hfu : u.isFinite = true)
    (hfv : v.isFinite = true) (hne : value u ≠ 0) (h : value u = value v) : u = v := by
  rcases finite_cases hfu with ⟨s, rfl⟩ | ⟨s, m, e, hm, rfl⟩
  · exact absurd rfl hne
  rcases finite_cases hfv with ⟨t, rfl⟩ | ⟨t, n, f, hn, rfl⟩
  · exact absurd h hne
  have hleft : (0 : ℝ) < m * 2 ^ e := by positivity
  have hright : (0 : ℝ) < n * 2 ^ f := by positivity
  rw [value_finite, value_finite] at h
  have hsize : (m : ℝ) * 2 ^ e = n * 2 ^ f := by
    have habs := congrArg (|·|) h
    simpa [abs_mul, abs_signum] using habs
  obtain rfl : s = t := by
    cases s <;> cases t
    · rfl
    · simp only [signum] at h
      linarith
    · simp only [signum] at h
      linarith
    · rfl
  obtain rfl : e = f := by
    rcases lt_trichotomy e f with hlt | heq | hgt
    · exact absurd hsize (mul_two_zpow_lt hu.1 hu.2.1 hv.2.2 hlt).ne
    · exact heq
    · exact absurd hsize (mul_two_zpow_lt hv.1 hv.2.1 hu.2.2 hgt).ne'
  obtain rfl : m = n := by
    exact_mod_cast mul_right_cancel₀ (by positivity : (2 : ℝ) ^ e ≠ 0) hsize
  rfl

/-- Far out, doubles that lie near each other are the same. -/
theorem unpack_eq_of_far {x y : Float} (hx : x.isFinite = true) (hy : y.isFinite = true) {d : ℝ}
    (hd : 0 < d) (hnear : |toReal x - toReal y| ≤ d)
    (hfar : (2 ^ 53 + 1) * d ≤ max |toReal x| |toReal y|) :
    x.toModel.unpack = y.toModel.unpack := by
  have hsame : toReal x = toReal y := by
    by_contra hne
    have hgap : min |toReal x| |toReal y| < 2 ^ 53 * |toReal x - toReal y| :=
      min_lt_mul_abs_sub (isCanonical_unpack _) (isCanonical_unpack _) hx hy hne
    have hsizes := abs_abs_sub_abs_le (toReal x) (toReal y)
    rw [← max_sub_min_eq_abs'] at hsizes
    linarith
  have hne : toReal x ≠ 0 := by
    intro hzero
    rw [← hsame, hzero, abs_zero, max_self] at hfar
    exact absurd hfar (not_le.mpr (by positivity))
  exact eq_of_value_eq (isCanonical_unpack _) (isCanonical_unpack _) hx hy hne hsame

theorem exponent_le_of_unpack {b : BitVec Format.binary64.numBits} (hm : 0 < m)
    (h : UnpackedFloat.unpack .binary64 b = .finite s m e hm) : e ≤ 971 := by
  have hbits : (unpackExponent b).toNat < 2 ^ 11 := (unpackExponent b).isLt
  have hbias : Format.binary64.exponentBias = 1023 := rfl
  simp only [UnpackedFloat.unpack, hbias] at h
  split at h
  · split at h <;> cases h
  · next hfinite =>
      have hne : (unpackExponent b).toNat ≠ 2047 := fun h => hfinite (BitVec.eq_of_toNat_eq h)
      split at h
      · next hzero =>
          split at h
          · cases h
          · cases h
            rw [hzero]
            decide
      · cases h
        omega

theorem abs_toReal_lt (x : Float) : |toReal x| < 2 ^ (1024 : ℤ) := by
  have hcanonical : IsCanonical x.toModel.unpack := isCanonical_unpack _
  rw [toReal]
  cases hu : x.toModel.unpack with
  | notANumber => simp [value]
  | infinity s => simp [value]
  | zero s => simp
  | finite s m e hm =>
      have he := exponent_le_of_unpack hm hu
      rw [hu] at hcanonical
      have hdigits : (m : ℝ) < 2 ^ 53 := by exact_mod_cast hcanonical.1
      rw [value_finite, abs_signum_mul, abs_of_nonneg (by positivity)]
      calc (m : ℝ) * 2 ^ e < 2 ^ 53 * 2 ^ e := mul_lt_mul_of_pos_right hdigits (by positivity)
        _ = 2 ^ (53 + e) := by
            rw [zpow_add₀ two_ne_zero]
            rfl
        _ ≤ 2 ^ (1024 : ℤ) := zpow_le_zpow_right₀ one_le_two (by omega)

/-! ## Whole numbers -/

theorem shift_eq_floor (n e : Int) : (n <<< e.toNat) >>> (-e).toNat = ⌊(n : ℝ) * 2 ^ e⌋ := by
  rw [Int.shiftLeft_eq, Int.shiftRight_eq_div_pow]
  rcases le_or_gt 0 e with he | he
  · obtain ⟨k, rfl⟩ := Int.eq_ofNat_of_zero_le he
    have hwhole : (n : ℝ) * 2 ^ (k : ℤ) = (n * 2 ^ k : ℤ) := by
      push_cast
      rfl
    rw [hwhole, Int.floor_intCast]
    simp
  · obtain ⟨k, rfl⟩ : ∃ k : ℕ, e = -k := ⟨(-e).toNat, by omega⟩
    have hshare : (n : ℝ) * 2 ^ (-(k : ℤ)) = n / (2 ^ k : ℕ) := by
      rw [zpow_neg, zpow_natCast, div_eq_mul_inv]
      push_cast
      rfl
    rw [hshare, Int.floor_div_natCast, Int.floor_intCast]
    simp

theorem floor_eq (hx : x.isFinite = true) : floor x = ⌊toReal x⌋ := by
  rw [floor, toReal]
  rcases finite_cases hx with ⟨s, hu⟩ | ⟨s, m, e, hm, hu⟩
  · simp [hu]
  · rw [hu]
    cases s with
    | positive =>
        dsimp only
        rw [shift_eq_floor, value_finite, signum, one_mul, Int.cast_natCast]
    | negative =>
        have hneg : -((m : ℤ) <<< e.toNat) = (-m : ℤ) <<< e.toNat := by
          rw [Int.shiftLeft_eq, Int.shiftLeft_eq, neg_mul]
        dsimp only
        rw [hneg, shift_eq_floor, value_finite, signum, neg_one_mul, Int.cast_neg, Int.cast_natCast,
          neg_mul]

/-! ## Literals -/

/-- A positive double by its bits. -/
theorem toReal_ofBits {x : Float} {b : UInt64} {m : Nat} {e : Int} (hm : 0 < m)
    (hx : x = .ofBits b) (hb : (Float.ofBits b).toModel.unpack = .finite .positive m e hm) :
    toReal x = m * 2 ^ e := by
  rw [toReal, hx, hb, value_finite, signum, one_mul]

theorem toReal_one : toReal 1.0 = 1 := by
  have hone : toReal 1.0 = (2 ^ 52 : ℕ) * 2 ^ (-52 : ℤ) :=
    toReal_ofBits (b := 0x3FF0000000000000) (by decide) rfl rfl
  rw [hone]
  norm_num

end Roadworks.Binary64
