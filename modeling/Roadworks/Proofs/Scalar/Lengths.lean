import Roadworks.Proofs.Scalar.Values
/-! # Computed lengths

The squares of the coordinates, their sum and its root are rounded one after the other, so a
computed length is less than one of the coordinates by a few units of the last place at most, as
long as the square does not vanish. Where one of the results is too large for a double, so is the
length. -/

namespace Roadworks.Binary64

open Float.Model

/-- What rounding to 53 digits leaves of a number at least. -/
noncomputable def kept : ℝ := 1 - 1 / (2 ^ 53 : ℕ)

theorem kept_pos : 0 < kept := by
  norm_num [kept]

theorem kept_lt_one : kept < 1 := by
  norm_num [kept]

theorem half_lt_kept_pow_three : 1 / 2 < kept ^ 3 := by
  norm_num [kept]

/-- The double is `c` or more, or the positive infinity. -/
def IsAtLeast (z : Float) (c : ℝ) : Prop :=
  z.toModel.unpack = .infinity .positive ∨ z.isFinite = true ∧ c ≤ toReal z

namespace IsAtLeast

variable {x y z : Float} {c d : ℝ}

theorem le_toReal_of_le (h : IsAtLeast x c) (hy : y.isFinite = true) (hle : x ≤ y) :
    c ≤ toReal y := by
  rcases h with hx | ⟨hx, hc⟩
  · rw [le_iff, hx, UnpackedFloat.le] at hle
    rcases finite_cases hy with ⟨s, hu⟩ | ⟨s, m, e, hm, hu⟩
    · rw [hu] at hle
      cases hle
    · rw [hu] at hle
      cases hle
  · exact hc.trans (toReal_le_of_le hx hy hle)

theorem of_approximates_nonneg (h : Approximates z d) (hd : 0 ≤ d) : IsAtLeast z 0 := by
  rcases h.cases with ⟨s, hu⟩ | hz
  · rw [Approximates, hu] at h
    cases s with
    | positive => exact .inl hu
    | negative =>
        rw [IsNearest, signum, neg_one_mul] at h
        exact absurd (h.trans (neg_nonpos.mpr hd)) (not_le.mpr (by positivity))
  · obtain ⟨t, ht⟩ := (approximates_iff hz).mp h
    exact .inr ⟨hz, ht.nonneg hd⟩

/-- What is not too small is rounded to something not much less. -/
theorem of_approximates (h : Approximates z d) (hc : 2 ^ (-1022 : ℤ) ≤ c) (hd : c ≤ d) :
    IsAtLeast z (kept * c) := by
  have hpos : 0 < d := lt_of_lt_of_le (by positivity) (hc.trans hd)
  have habs : |d| = d := abs_of_pos hpos
  rcases of_approximates_nonneg h hpos.le with hinf | ⟨hz, _⟩
  · exact .inl hinf
  · obtain ⟨t, ht⟩ := (approximates_iff hz).mp h
    have herror := (abs_le.mp (ht.abs_sub_le_mul (habs.symm ▸ hc.trans hd))).1
    have hkept : kept * c ≤ kept * d := mul_le_mul_of_nonneg_left hd kept_pos.le
    have hshare : kept * d = d - d / 2 ^ 53 := by
      rw [kept]
      ring
    rw [habs] at herror
    exact .inr ⟨hz, by linarith⟩

theorem unpack_mul_self {s : UnpackedFloat.Sign} (h : z.toModel.unpack = .infinity s) :
    (z * z).toModel.unpack = .infinity .positive := by
  change UnpackedFloat.unpack .binary64 (UnpackedFloat.pack .binary64
    (UnpackedFloat.mul .binary64 z.toModel.unpack z.toModel.unpack)) = _
  rw [h]
  cases s <;> rfl

theorem square_nonneg (h : Approximates z d) : IsAtLeast (z * z) 0 := by
  rcases h.cases with ⟨s, hu⟩ | hz
  · exact .inl (unpack_mul_self hu)
  · exact of_approximates_nonneg (approximates_mul hz hz) (mul_self_nonneg _)

theorem square (h : Approximates z d) (hc : 2 ^ (-500 : ℤ) ≤ c) (hd : c ≤ |d|) :
    IsAtLeast (z * z) (kept ^ 3 * c ^ 2) := by
  have hkept := kept_pos
  have hpos : 0 < c := lt_of_lt_of_le (by positivity) hc
  rcases h.cases with ⟨s, hu⟩ | hz
  · exact .inl (unpack_mul_self hu)
  · obtain ⟨t, ht⟩ := (approximates_iff hz).mp h
    have hnormal : (2 : ℝ) ^ (-1022 : ℤ) ≤ 2 ^ (-500 : ℤ) :=
      zpow_le_zpow_right₀ one_le_two (by norm_num)
    have herror := ht.abs_sub_le_mul (hnormal.trans (hc.trans hd))
    have hsize : kept * c ≤ |toReal z| := by
      have hback := abs_sub_abs_le_abs_sub d (toReal z)
      have hshare : kept * |d| = |d| - |d| / 2 ^ 53 := by
        rw [kept]
        ring
      rw [abs_sub_comm] at hback
      calc kept * c ≤ kept * |d| := mul_le_mul_of_nonneg_left hd hkept.le
        _ ≤ |toReal z| := by linarith
    have hsquare : (kept * c) ^ 2 ≤ toReal z * toReal z := by
      rw [← abs_mul_abs_self, ← pow_two]
      exact pow_le_pow_left₀ (by positivity) hsize 2
    have hleast : 2 ^ (-1022 : ℤ) ≤ (kept * c) ^ 2 := by
      calc (2 : ℝ) ^ (-1022 : ℤ) ≤ (2 ^ (-501 : ℤ)) ^ 2 := by
            rw [← zpow_natCast, ← zpow_mul]
            exact zpow_le_zpow_right₀ one_le_two (by norm_num)
        _ ≤ (kept * c) ^ 2 := by
            refine pow_le_pow_left₀ (by positivity) ?_ 2
            rw [show (-501 : ℤ) = -1 + -500 from rfl, zpow_add₀ two_ne_zero, zpow_neg_one]
            exact mul_le_mul (by norm_num [kept]) hc (by positivity) hkept.le
    have hresult := of_approximates (approximates_mul hz hz) hleast hsquare
    rwa [mul_pow, ← mul_assoc, ← pow_succ'] at hresult

/-- The positive infinity stays, whatever is added to it but the other one. -/
theorem add_infinity {u : UnpackedFloat} (hu : u = .infinity .positive ∨ u.isFinite = true) :
    UnpackedFloat.add .binary64 (.infinity .positive) u = .infinity .positive ∧
      UnpackedFloat.add .binary64 u (.infinity .positive) = .infinity .positive := by
  rcases hu with rfl | hu
  · exact ⟨rfl, rfl⟩
  · rcases finite_cases hu with ⟨s, rfl⟩ | ⟨s, m, e, hm, rfl⟩
    · exact ⟨rfl, rfl⟩
    · exact ⟨rfl, rfl⟩

theorem add (hx : IsAtLeast x c) (hy : IsAtLeast y 0) (hc : 2 ^ (-1022 : ℤ) ≤ c) :
    IsAtLeast (x + y) (kept * c) ∧ IsAtLeast (y + x) (kept * c) := by
  rcases hx with hx | ⟨hx, hcx⟩
  · have hinfinity := add_infinity (hy.imp_right And.left)
    refine ⟨.inl ?_, .inl ?_⟩
    · rw [unpack_add, hx, hinfinity.1]
      rfl
    · rw [unpack_add, hx, hinfinity.2]
      rfl
  · rcases hy with hy | ⟨hy, hcy⟩
    · have hinfinity := add_infinity (.inr hx)
      refine ⟨.inl ?_, .inl ?_⟩
      · rw [unpack_add, hy, hinfinity.2]
        rfl
      · rw [unpack_add, hy, hinfinity.1]
        rfl
    · exact ⟨of_approximates (approximates_add hx hy) hc (by linarith),
        of_approximates (approximates_add hy hx) hc (by linarith)⟩

theorem sqrt (hx : IsAtLeast x (c ^ 2)) (hc : 2 ^ (-1022 : ℤ) ≤ c) :
    IsAtLeast x.sqrt (kept * c) := by
  rcases hx with hx | ⟨hx, hcx⟩
  · left
    change UnpackedFloat.unpack .binary64 (UnpackedFloat.pack .binary64
      (UnpackedFloat.sqrt .binary64 x.toModel.unpack)) = _
    rw [hx]
    rfl
  · have hnonneg : 0 ≤ toReal x := (sq_nonneg c).trans hcx
    exact of_approximates (approximates_sqrt hx hnonneg) hc (Real.le_sqrt_of_sq_le hcx)

/-- A computed length is not much less than one of its coordinates, which may be the other one. -/
theorem norm (hx : Approximates x c) (hy : Approximates y d) {r : ℝ} (hr : 2 ^ (-500 : ℤ) ≤ r)
    (hc : r ≤ |c|) :
    IsAtLeast (x * x + y * y).sqrt (kept ^ 3 * r) ∧
      IsAtLeast (y * y + x * x).sqrt (kept ^ 3 * r) := by
  have hkept := half_lt_kept_pow_three
  have hpos : 0 < r := lt_of_lt_of_le (by positivity) hr
  have hroom (k : ℤ) (hk : -1022 ≤ k - 1) {a s : ℝ} (ha : 2 ^ k ≤ a) (hs : 1 / 2 ≤ s) :
      2 ^ (-1022 : ℤ) ≤ s * a := by
    calc (2 : ℝ) ^ (-1022 : ℤ) ≤ 2 ^ (-1 + k) := zpow_le_zpow_right₀ one_le_two (by omega)
      _ = 1 / 2 * 2 ^ k := by rw [zpow_add₀ two_ne_zero, zpow_neg_one, one_div]
      _ ≤ s * a := mul_le_mul hs ha (by positivity) (by linarith)
  have hsquare : 2 ^ (-1000 : ℤ) ≤ r ^ 2 := by
    rw [show (-1000 : ℤ) = -500 * (2 : ℕ) from rfl, zpow_mul, zpow_natCast]
    exact pow_le_pow_left₀ (by positivity) hr 2
  obtain ⟨hadd, hadd'⟩ := (square hx hr hc).add (square_nonneg hy)
    (hroom _ (by norm_num) hsquare hkept.le)
  have hroot : kept * (kept ^ 3 * r ^ 2) = (kept ^ 2 * r) ^ 2 := by ring
  have hlength : kept * (kept ^ 2 * r) = kept ^ 3 * r := by ring
  have hnormal : 2 ^ (-1022 : ℤ) ≤ kept ^ 2 * r :=
    hroom _ (by norm_num) hr (hkept.le.trans
      (pow_le_pow_of_le_one kept_pos.le kept_lt_one.le (by norm_num)))
  rw [hroot] at hadd hadd'
  rw [← hlength]
  exact ⟨hadd.sqrt hnormal, hadd'.sqrt hnormal⟩

end IsAtLeast

end Roadworks.Binary64
