import Roadworks.Proofs.Scalar.Lengths
/-! # Order of doubles

Finite doubles are ordered as the numbers that they stand for, and rounding moves no number past a
double. So a sum of lengths is not less than any of its parts, whatever is not a number aside. -/

namespace Roadworks.Binary64

open Float.Model Float.Model.UnpackedFloat

/-! ## Opposite numbers -/

theorem value_neg (u : UnpackedFloat) : value u.neg = -value u := by
  cases u with
  | notANumber => exact neg_zero.symm
  | infinity s => exact neg_zero.symm
  | zero s => exact neg_zero.symm
  | finite s m e hm =>
      cases s with
      | negative =>
          change signum .positive * _ = -(signum .negative * _)
          simp [signum]
      | positive =>
          change signum .negative * _ = -(signum .positive * _)
          simp [signum]

theorem toReal_neg {x : Float} (hx : x.isFinite = true) :
    (-x).isFinite = true ∧ toReal (-x) = -toReal x := by
  have hcanonical : IsCanonical x.toModel.unpack := isCanonical_unpack _
  have hunpack : (-x).toModel.unpack = x.toModel.unpack.neg := by
    change UnpackedFloat.unpack .binary64 (UnpackedFloat.pack .binary64 x.toModel.unpack.neg) = _
    rcases finite_cases hx with ⟨s, hu⟩ | ⟨s, m, e, hm, hu⟩
    · rw [hu]
      cases s <;> rfl
    · rw [hu] at hcanonical ⊢
      exact unpack_pack_of_le hm hcanonical (exponent_le_of_unpack hm hu)
  constructor
  · change (-x).toModel.unpack.isFinite = true
    rw [hunpack]
    rcases finite_cases hx with ⟨s, hu⟩ | ⟨s, m, e, hm, hu⟩
    · rw [hu]
      rfl
    · rw [hu]
      rfl
  · rw [toReal, hunpack, value_neg, toReal]

/-! ## Rounding keeps the order -/

theorem two_pow_mul_two_zpow (k : ℕ) (t : ℤ) : ((2 ^ k : ℤ) : ℝ) * 2 ^ t = 2 ^ (t + k) := by
  rw [Int.cast_pow, Int.cast_ofNat, ← zpow_natCast, ← zpow_add₀ two_ne_zero, add_comm]

namespace IsRounded

variable {x X : ℝ} {t : ℤ} {u : UnpackedFloat}

/-- Rounding does not pass a multiple of the last place. -/
theorem mul_le (h : IsRounded x X t) {n : ℤ} (hn : n * 2 ^ t ≤ x) : n * 2 ^ t ≤ X := by
  obtain ⟨k, rfl⟩ := h.exists_eq
  have hunit : (0 : ℝ) < 2 ^ t := by positivity
  have herror := (abs_le.mp h.abs_sub_le).1
  have hlt : (n : ℝ) < k + 1 := by
    refine lt_of_mul_lt_mul_right ?_ hunit.le
    linarith
  have hle : n ≤ k := Int.lt_add_one_iff.mp (by exact_mod_cast hlt)
  exact mul_le_mul_of_nonneg_right (by exact_mod_cast hle) hunit.le

theorem le_mul (h : IsRounded x X t) {n : ℤ} (hn : x ≤ n * 2 ^ t) : X ≤ n * 2 ^ t := by
  have hback := h.neg.mul_le (n := -n) (by push_cast; linarith)
  push_cast at hback
  linarith

/-- The last place of the larger number is no finer. -/
theorem place_le_of_lt {y Y : ℝ} {u : ℤ} (hX : IsRounded x X t) (hY : IsRounded y Y u)
    (hx : 0 ≤ x) (hlt : x < y) : t ≤ u := by
  have habs : |x| = x := abs_of_nonneg hx
  have hpos : |y| = y := abs_of_pos (hx.trans_lt hlt)
  rcases hX.two_zpow_le with rfl | ⟨_, hle⟩
  · exact hY.le
  · have hbetween := (hle.trans_eq habs).trans_lt (hlt.trans_le (hpos.ge.trans hY.lt_two_zpow.le))
    have hexponent := (zpow_lt_zpow_iff_right₀ one_lt_two).mp hbetween
    omega

/-- Numbers that are rounded at one place stay in order. -/
theorem le_of_lt_of_place {y Y : ℝ} (hX : IsRounded x X t) (hY : IsRounded y Y t) (hlt : x < y) :
    X ≤ Y := by
  obtain ⟨n, rfl⟩ := hX.exists_eq
  obtain ⟨k, rfl⟩ := hY.exists_eq
  have hunit : (0 : ℝ) < 2 ^ t := by positivity
  have hbelow := (abs_le.mp hX.abs_sub_le).2
  have habove := (abs_le.mp hY.abs_sub_le).1
  have hstep : (n : ℝ) < k + 1 := by
    refine lt_of_mul_lt_mul_right ?_ hunit.le
    linarith
  have hle : n ≤ k := Int.lt_add_one_iff.mp (by exact_mod_cast hstep)
  exact mul_le_mul_of_nonneg_right (by exact_mod_cast hle) hunit.le

/-- Of two numbers that are not negative, the larger one is rounded to the larger one. -/
theorem le_of_lt {y Y : ℝ} {u : ℤ} (hX : IsRounded x X t) (hY : IsRounded y Y u) (hx : 0 ≤ x)
    (hlt : x < y) : X ≤ Y := by
  rcases (hX.place_le_of_lt hY hx hlt).lt_or_eq with hfiner | rfl
  · -- The least number with the coarser last place lies between the two.
    have hfine : ((2 ^ (u + 52 - t).toNat : ℤ) : ℝ) * 2 ^ t = 2 ^ (u + 52) := by
      rw [two_pow_mul_two_zpow]
      congr 1
      omega
    have hcoarse : ((2 ^ 52 : ℤ) : ℝ) * 2 ^ u = 2 ^ (u + 52) := two_pow_mul_two_zpow 52 u
    have hlow : x ≤ 2 ^ (u + 52) := ((le_abs_self x).trans hX.lt_two_zpow.le).trans
      (zpow_le_zpow_right₀ one_le_two (by omega))
    have hhigh : 2 ^ (u + 52) ≤ y :=
      (hY.two_zpow_le.resolve_left (by have := hX.le; omega)).2.trans_eq
        (abs_of_pos (hx.trans_lt hlt))
    exact (hX.le_mul (hlow.trans_eq hfine.symm)).trans
      (hfine.trans_le (hcoarse.ge.trans (hY.mul_le (hcoarse.trans_le hhigh))))
  · exact hX.le_of_lt_of_place hY hlt

/-- Nor does rounding pass a double. -/
theorem value_le (h : IsRounded x X t) (hu : IsCanonical u) (hfinite : u.isFinite = true)
    (hle : value u ≤ x) : value u ≤ X := by
  rcases finite_cases hfinite with ⟨s, rfl⟩ | ⟨s, m, e, hm, rfl⟩
  · exact h.nonneg hle
  rcases le_or_gt t e with hte | het
  · have hmultiple := value_decreaseExponent s hm hte
    rw [hmultiple] at hle ⊢
    exact h.mul_le hle
  · -- A double with a finer last place lies below all of the size of `x`.
    have hdigits : (m : ℝ) < 2 ^ 53 := by exact_mod_cast hu.1
    have hsize : |value (.finite s m e hm)| < 2 ^ (t + 52) := by
      rw [value_finite, abs_signum_mul, abs_of_nonneg (by positivity)]
      calc (m : ℝ) * 2 ^ e < 2 ^ 53 * 2 ^ e := mul_lt_mul_of_pos_right hdigits (by positivity)
        _ = 2 ^ (53 + e) := by
            rw [zpow_add₀ two_ne_zero]
            rfl
        _ ≤ 2 ^ (t + 52) := zpow_le_zpow_right₀ one_le_two (by omega)
    have hlarge : (2 : ℝ) ^ (t + 52) ≤ |x| := (h.two_zpow_le.resolve_left (by have := hu.2.1; omega)).2
    have hpos : 0 < x := by
      by_contra hneg
      rw [abs_of_nonpos (not_lt.mp hneg)] at hlarge
      linarith [(abs_lt.mp hsize).1]
    have hpower : ((2 ^ 52 : ℤ) : ℝ) * 2 ^ t = 2 ^ (t + 52) := two_pow_mul_two_zpow 52 t
    rw [abs_of_pos hpos, ← hpower] at hlarge
    have hfirst := h.mul_le hlarge
    rw [hpower] at hfirst
    linarith [(abs_lt.mp hsize).2]

theorem le_value (h : IsRounded x X t) (hu : IsCanonical u) (hfinite : u.isFinite = true)
    (hle : x ≤ value u) : X ≤ value u := by
  rcases finite_cases hfinite with ⟨s, rfl⟩ | ⟨s, m, e, hm, rfl⟩
  · have hback := h.neg.nonneg (neg_nonneg.mpr hle)
    rw [value_zero]
    linarith
  · have hneg : value (.finite (-s) m e hm) = -value (.finite s m e hm) :=
      value_neg (.finite s m e hm)
    have hback := h.neg.value_le (u := .finite (-s) m e hm) hu rfl (by rw [hneg]; linarith)
    rw [hneg] at hback
    linarith

/-- A double is rounded to itself. -/
theorem eq_toReal {z : Float} (h : IsRounded (toReal z) X t) (hz : z.isFinite = true) :
    X = toReal z :=
  le_antisymm (h.le_value (isCanonical_unpack _) hz le_rfl)
    (h.value_le (isCanonical_unpack _) hz le_rfl)

end IsRounded

/-! ## Comparing finite doubles -/

variable {x y z : Float}

theorem compare_self {u : UnpackedFloat} (h : u.isFinite = true) :
    UnpackedFloat.compare u u = some .eq := by
  rcases finite_cases h with ⟨s, rfl⟩ | ⟨s, m, e, hm, rfl⟩
  · rfl
  · cases s <;> simp [UnpackedFloat.compare]

theorem compare_swap {u v : UnpackedFloat} (hu : u.isFinite = true) (hv : v.isFinite = true) :
    ∃ o, UnpackedFloat.compare u v = some o ∧ UnpackedFloat.compare v u = some o.swap := by
  rcases finite_cases hu with ⟨s, rfl⟩ | ⟨s, m, e, hm, rfl⟩
  · rcases finite_cases hv with ⟨t, rfl⟩ | ⟨t, n, f, hn, rfl⟩
    · exact ⟨.eq, rfl, rfl⟩
    · cases t with
      | negative => exact ⟨.gt, rfl, rfl⟩
      | positive => exact ⟨.lt, rfl, rfl⟩
  · rcases finite_cases hv with ⟨t, rfl⟩ | ⟨t, n, f, hn, rfl⟩
    · cases s with
      | negative => exact ⟨.lt, rfl, rfl⟩
      | positive => exact ⟨.gt, rfl, rfl⟩
    · have hswap : (compare f e).then (compare n m) = ((compare e f).then (compare m n)).swap := by
        rw [Ordering.swap_then, Int.compare_swap, Nat.compare_swap]
      cases s with
      | negative =>
          cases t with
          | negative => exact ⟨_, rfl, congrArg (fun o : Ordering => some o.swap) hswap⟩
          | positive => exact ⟨.lt, rfl, rfl⟩
      | positive =>
          cases t with
          | negative => exact ⟨.gt, rfl, rfl⟩
          | positive => exact ⟨_, rfl, congrArg some hswap⟩

theorem value_eq_zero {u : UnpackedFloat} (h : u.isFinite = true) (hu : value u = 0) :
    ∃ s, u = .zero s := by
  rcases finite_cases h with hzero | ⟨s, m, e, hm, rfl⟩
  · exact hzero
  · have hpos : (0 : ℝ) < m * 2 ^ e := by positivity
    rw [value_finite] at hu
    cases s <;> simp [signum, hpos.ne'] at hu

/-- Doubles of one value compare as equal. -/
theorem compare_of_toReal_eq (hx : x.isFinite = true) (hy : y.isFinite = true)
    (h : toReal x = toReal y) : UnpackedFloat.compare x.toModel.unpack y.toModel.unpack = some .eq := by
  by_cases hzero : toReal x = 0
  · obtain ⟨s, hs⟩ := value_eq_zero hx hzero
    obtain ⟨t, ht⟩ := value_eq_zero hy (h.symm.trans hzero)
    rw [hs, ht]
    rfl
  · have heq : x.toModel.unpack = y.toModel.unpack :=
      eq_of_value_eq (isCanonical_unpack _) (isCanonical_unpack _) hx hy hzero h
    rw [heq]
    exact compare_self hy

theorem le_iff_toReal (hx : x.isFinite = true) (hy : y.isFinite = true) :
    x ≤ y ↔ toReal x ≤ toReal y := by
  refine ⟨toReal_le_of_le hx hy, fun h => ?_⟩
  obtain ⟨o, ho, hswap⟩ := compare_swap hx hy
  cases o with
  | lt => rw [le_iff, UnpackedFloat.le, ho]; rfl
  | eq => rw [le_iff, UnpackedFloat.le, ho]; rfl
  | gt =>
      have hback : y ≤ x := by
        rw [le_iff, UnpackedFloat.le, hswap]
        rfl
      have heq := compare_of_toReal_eq hx hy (le_antisymm h (toReal_le_of_le hy hx hback))
      rw [ho] at heq
      cases heq

theorem lt_iff_toReal (hx : x.isFinite = true) (hy : y.isFinite = true) :
    x < y ↔ toReal x < toReal y := by
  rw [← not_le, ← le_iff_toReal hy hx, lt_iff, le_iff, UnpackedFloat.lt, UnpackedFloat.le]
  obtain ⟨o, ho, hswap⟩ := compare_swap hx hy
  rw [ho, hswap]
  cases o <;> simp

/-! ## Sums of lengths -/

/-- The double is no number, or it is not negative. -/
def IsLength (z : Float) : Prop := z.toModel.unpack = .notANumber ∨ 0.0 ≤ z

theorem not_le_of_notANumber (hx : x.toModel.unpack = .notANumber) : ¬ x ≤ y := by
  simp [le_iff, UnpackedFloat.le, hx, UnpackedFloat.compare]

theorem unpack_pack_notANumber :
    UnpackedFloat.unpack .binary64 (UnpackedFloat.pack .binary64 .notANumber) = .notANumber := by
  rfl

/-- What is no number stays so, whatever is added. -/
theorem add_notANumber (h : x.toModel.unpack = .notANumber ∨ y.toModel.unpack = .notANumber) :
    (x + y).toModel.unpack = .notANumber := by
  have hadd : UnpackedFloat.add .binary64 x.toModel.unpack y.toModel.unpack = .notANumber := by
    rcases h with h | h
    · rw [h]
      cases y.toModel.unpack <;> rfl
    · rw [h]
      cases x.toModel.unpack <;> rfl
  rw [unpack_add, hadd, unpack_pack_notANumber]

theorem IsLength.add (hx : IsLength x) (hy : IsLength y) : IsLength (x + y) := by
  rcases hx with hx | hx
  · exact .inl (add_notANumber (.inl hx))
  · rcases hy with hy | hy
    · exact .inl (add_notANumber (.inr hy))
    · exact .inr (zero_le_add hx hy)

theorem isLength_sqrt (z : Float) : IsLength z.sqrt := by
  have hunpack : z.sqrt.toModel.unpack = UnpackedFloat.unpack .binary64
      (UnpackedFloat.pack .binary64 (UnpackedFloat.sqrt .binary64 z.toModel.unpack)) := rfl
  rw [IsLength, zero_le_iff, hunpack]
  cases hz : z.toModel.unpack with
  | notANumber => exact .inl unpack_pack_notANumber
  | infinity s =>
      cases s with
      | negative => exact .inl unpack_pack_notANumber
      | positive => exact .inr trivial
  | zero s =>
      right
      cases s <;> trivial
  | finite s m e hm =>
      cases s with
      | negative => exact .inl unpack_pack_notANumber
      | positive =>
          have hfinite : z.isFinite = true := by
            change z.toModel.unpack.isFinite = true
            rw [hz]
            rfl
          have hnonneg : 0 ≤ toReal z := by
            rw [toReal, hz, value_finite, signum]
            positivity
          have hroot := IsAtLeast.of_approximates_nonneg (approximates_sqrt hfinite hnonneg)
            (Real.sqrt_nonneg _)
          rw [← hz, ← hunpack, ← zero_le_iff]
          rcases hroot with hinfinite | ⟨hroot, hle⟩
          · right
            rw [zero_le_iff, hinfinite]
            trivial
          · right
            rw [le_iff_toReal rfl hroot]
            exact hle

theorem finite_or_infinity (hx : 0.0 ≤ x) :
    x.isFinite = true ∨ x.toModel.unpack = .infinity .positive := by
  change x.toModel.unpack.isFinite = true ∨ _
  rcases (zero_le_iff.mp hx).cases with ⟨s, hu⟩ | hu | ⟨m, e, hm, hu⟩
  · rw [hu]
    exact .inl rfl
  · exact .inr hu
  · rw [hu]
    exact .inl rfl

theorem le_infinity (hx : 0.0 ≤ x) (hz : z.toModel.unpack = .infinity .positive) : x ≤ z := by
  rw [le_iff, UnpackedFloat.le, hz]
  rcases (zero_le_iff.mp hx).cases with ⟨s, hu⟩ | hu | ⟨m, e, hm, hu⟩
  · rw [hu]
    rfl
  · rw [hu]
    rfl
  · rw [hu]
    rfl

/-- What is not less than a length is one. -/
theorem zero_le_of_le (hx : 0.0 ≤ x) (h : x ≤ z) : 0.0 ≤ z := by
  rw [le_iff, UnpackedFloat.le] at h
  rw [zero_le_iff] at hx ⊢
  cases hz : z.toModel.unpack with
  | notANumber =>
      rcases hx.cases with ⟨s, hu⟩ | hu | ⟨m, e, hm, hu⟩ <;>
        simp [hu, hz, UnpackedFloat.compare] at h
  | zero s => trivial
  | infinity s =>
      cases s with
      | positive => trivial
      | negative =>
          rcases hx.cases with ⟨s, hu⟩ | hu | ⟨m, e, hm, hu⟩ <;>
            rw [hu, hz] at h <;> cases h
  | finite s n f hn =>
      cases s with
      | positive => trivial
      | negative =>
          rcases hx.cases with ⟨s, hu⟩ | hu | ⟨m, e, hm, hu⟩ <;>
            rw [hu, hz] at h <;> cases h

/-- A finite sum of lengths has finite parts. -/
theorem isFinite_of_add (hx : 0.0 ≤ x) (hy : 0.0 ≤ y) (h : (x + y).isFinite = true) :
    x.isFinite = true ∧ y.isFinite = true := by
  have hnever {u : UnpackedFloat} (hu : u = .infinity .positive) :
      ¬ (UnpackedFloat.unpack .binary64 (UnpackedFloat.pack .binary64 u)).isFinite = true := by
    rw [hu]
    exact nofun
  change ((x + y).toModel.unpack).isFinite = true at h
  rw [unpack_add] at h
  rcases finite_or_infinity hx with hfx | hix
  · rcases finite_or_infinity hy with hfy | hiy
    · exact ⟨hfx, hfy⟩
    · rw [hiy] at h
      exact absurd h (hnever (IsAtLeast.add_infinity (.inr hfx)).2)
  · rw [hix] at h
    have hpart := (finite_or_infinity hy).symm
    exact absurd h (hnever (IsAtLeast.add_infinity hpart).1)

/-- A sum of lengths is reached only where its first part is. -/
theorem IsLength.le_of_add_le (hx : IsLength x) (hy : IsLength y) (h : x + y ≤ z) : x ≤ z := by
  rcases hx with hx | hx
  · exact absurd h (not_le_of_notANumber (add_notANumber (.inl hx)))
  rcases hy with hy | hy
  · exact absurd h (not_le_of_notANumber (add_notANumber (.inr hy)))
  have hnonneg : 0.0 ≤ x + y := zero_le_add hx hy
  rcases finite_or_infinity (zero_le_of_le hnonneg h) with hz | hz
  · have hsum : (x + y).isFinite = true := by
      refine (finite_or_infinity hnonneg).resolve_right fun hinfinite => ?_
      have hpast : toReal z + 1 ≤ toReal z := IsAtLeast.le_toReal_of_le (.inl hinfinite) hz h
      linarith
    obtain ⟨hfx, hfy⟩ := isFinite_of_add hx hy hsum
    obtain ⟨t, ht⟩ := (approximates_iff hsum).mp (approximates_add hfx hfy)
    have hyr : 0 ≤ toReal y := toReal_le_of_le rfl hfy hy
    have hpart : toReal x ≤ toReal (x + y) :=
      ht.value_le (isCanonical_unpack _) hfx (le_add_of_nonneg_right hyr)
    rw [le_iff_toReal hfx hz]
    exact hpart.trans (toReal_le_of_le hsum hz h)
  · exact le_infinity hx hz

end Roadworks.Binary64
