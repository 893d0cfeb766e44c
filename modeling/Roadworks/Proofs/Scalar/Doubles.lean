import Mathlib
import Roadworks.Scalar.Binary64
/-! # Sums of doubles that are not negative

Rounding never turns a sum of numbers that are not negative into something else, and it never loses
a positive one: the least digit of a sum is a digit of one of the two numbers. -/

namespace Roadworks.Binary64

open Float.Model Float.Model.UnpackedFloat

/-! ## Rounding -/

theorem targetExponent_eq (e : Int) :
    Format.binary64.targetExponent e = max (e - 53) (-1074) := rfl

theorem mantissa_shiftRight (m : ExtendedMantissa) (k : Nat) :
    (m >>> k).mantissa = m.mantissa / 2 ^ k := by
  induction k with
  | zero => exact (Nat.div_one _).symm
  | succ k ih =>
      change (ExtendedMantissa.shiftRightOne (m >>> k)).mantissa = _
      rw [ExtendedMantissa.shiftRightOne, ih, Nat.div_div_eq_div_mul, Nat.pow_succ]

theorem mantissa_ofMantissaAndAccuracy (m : Nat) (a : Accuracy) :
    (ExtendedMantissa.ofMantissaAndAccuracy m a).mantissa = m := by
  cases a with
  | exact => rfl
  | inexact o => cases o <;> rfl

theorem le_roundedMantissa (m : ExtendedMantissa) : m.mantissa ≤ m.roundedMantissa := by
  rw [ExtendedMantissa.roundedMantissa]
  cases m.accuracy with
  | exact => exact Nat.le_refl _
  | inexact o => cases o <;> simp [Accuracy.roundToNearestEven]

/-- Shifting a mantissa to the exponent that it should have leaves between one and 53 digits. -/
theorem shifted_bounds {m : Nat} {e : Int} (hm : 0 < m) (he : -1074 ≤ e) :
    0 < m / 2 ^ (Format.binary64.targetExponent (totalExponent m e) - e).toNat ∧
      m / 2 ^ (Format.binary64.targetExponent (totalExponent m e) - e).toNat < 2 ^ 53 := by
  have hlow : 2 ^ m.log2 ≤ m := Nat.log2_self_le (Nat.ne_of_gt hm)
  have hhigh : m < 2 ^ (m.log2 + 1) := Nat.lt_log2_self
  have hshift : (Format.binary64.targetExponent (totalExponent m e) - e).toNat = m.log2 - 52 := by
    rw [targetExponent_eq, totalExponent]
    omega
  rw [hshift]
  constructor
  · refine Nat.div_pos (Nat.le_trans ?_ hlow) (Nat.two_pow_pos _)
    exact Nat.pow_le_pow_right (by omega) (by omega)
  · rw [Nat.div_lt_iff_lt_mul (Nat.two_pow_pos _), ← Nat.pow_add]
    exact Nat.lt_of_lt_of_le hhigh (Nat.pow_le_pow_right (by omega) (by omega))

/-- A positive number whose digits are not below the least exponent is rounded to another. -/
theorem exists_roundWithAccuracy_eq (s : Sign) {m : Nat} {e : Int} (hm : 0 < m) (he : -1074 ≤ e)
    (a : Accuracy) : ∃ n f, ∃ hn : 0 < n,
      roundWithAccuracy .binary64 s m e a = .finite s n f hn ∧ n < 2 ^ 53 ∧ -1074 ≤ f := by
  have hpos : 0 < (ExtendedMantissa.ofMantissaAndAccuracy m a >>>
      (Format.binary64.targetExponent (totalExponent m e) - e).toNat).roundedMantissa := by
    refine Nat.lt_of_lt_of_le ?_ (le_roundedMantissa _)
    rw [mantissa_shiftRight, mantissa_ofMantissaAndAccuracy]
    exact (shifted_bounds hm he).1
  have hagain := shifted_bounds hpos
    (e := e + (Format.binary64.targetExponent (totalExponent m e) - e).toNat) (by omega)
  simp only [roundWithAccuracy, shiftToTargetExponent, shiftToExponent, mantissa_shiftRight,
    mantissa_ofMantissaAndAccuracy]
  rw [dif_neg (Nat.ne_of_gt hagain.1)]
  exact ⟨_, _, hagain.1, rfl, hagain.2, by omega⟩

theorem exists_round_eq (s : Sign) {m : Nat} {e : Int} (hm : 0 < m) (he : -1074 ≤ e) :
    ∃ n f, ∃ hn : 0 < n,
      UnpackedFloat.round .binary64 s m e = .finite s n f hn ∧ n < 2 ^ 53 ∧ -1074 ≤ f := by
  simp only [UnpackedFloat.round, decreaseExponent]
  apply exists_roundWithAccuracy_eq
  · rw [Nat.shiftLeft_eq]
    exact Nat.mul_pos hm (Nat.two_pow_pos _)
  · rw [targetExponent_eq]
    omega

/-! ## Packing -/

/-- The number is a zero of either sign. -/
def IsZero : UnpackedFloat → Prop
  | .zero _ => True
  | _ => False

/-- The number is a zero of either sign, or it is positive. -/
def IsNonneg : UnpackedFloat → Prop
  | .zero _ | .finite .positive _ _ _ | .infinity .positive => True
  | _ => False

/-- A finite number has at most 53 digits, none of them below the least exponent. -/
def InRange : UnpackedFloat → Prop
  | .finite _ m e _ => m < 2 ^ 53 ∧ -1074 ≤ e
  | _ => True

/-- What is read from the bits of a sign, an exponent and a mantissa. -/
theorem unpack_packComponents {spec : Format} (s : Sign) (e : BitVec spec.exponentBits)
    (m : BitVec spec.mantissaBitsWithoutImplicit) :
    UnpackedFloat.unpack spec (packComponents spec s e m) =
      if e = -1#_ then if m = 0#_ then .infinity s else .notANumber
      else if e = 0#_ then
        if h : m = 0#_ then .zero s
        else .finite s m.toNat ((e.toNat : Int) -
          (spec.exponentBias + spec.mantissaBitsWithoutImplicit) + 1)
          (by simpa [BitVec.toNat_pos, BitVec.pos_iff_ne_zero] using h)
      else .finite s (1#1 ++ m).toNat ((e.toNat : Int) -
        (spec.exponentBias + spec.mantissaBitsWithoutImplicit)) (by simp) := by
  simp only [UnpackedFloat.unpack, unpackMantissa_packComponents, unpackExponent_packComponents,
    unpackSign_packComponents, Sign.ofBitVec_toBitVec]

theorem inRange_unpack (b : BitVec Format.binary64.numBits) :
    InRange (UnpackedFloat.unpack .binary64 b) := by
  have hmantissa : (unpackMantissa b).toNat < 2 ^ 52 := (unpackMantissa b).isLt
  have hbias : Format.binary64.exponentBias = 1023 := rfl
  simp only [UnpackedFloat.unpack, hbias]
  split
  · split <;> trivial
  · split
    · next hexponent =>
        split
        · trivial
        · rw [hexponent]
          exact ⟨by omega, by decide⟩
    · next hexponent =>
        have hne : (unpackExponent b).toNat ≠ 0 := fun h => hexponent (BitVec.eq_of_toNat_eq h)
        refine ⟨(1#1 ++ unpackMantissa b).isLt, ?_⟩
        omega

theorem isNonneg_unpack_packComponents {e : BitVec 11} {m : BitVec 52}
    (h : e = -1#_ → m = 0#_) :
    IsNonneg (UnpackedFloat.unpack .binary64 (packComponents .binary64 .positive e m)) := by
  rw [unpack_packComponents]
  split
  · next he => rw [if_pos (h he)]; trivial
  · split
    · split <;> trivial
    · trivial

theorem isZero_unpack_packComponents_iff {s : Sign} {e : BitVec 11} {m : BitVec 52} :
    IsZero (UnpackedFloat.unpack .binary64 (packComponents .binary64 s e m)) ↔
      e = 0#_ ∧ m = 0#_ := by
  rw [unpack_packComponents]
  split
  · next he =>
      have hne : e ≠ 0#11 := by rw [he]; decide
      split <;> simp [IsZero, hne]
  · split
    · split <;> simp [IsZero, *]
    · simp [IsZero, *]

/-- The bits of a finite number are those of an infinity where it is too large; they never are those
of a zero. -/
theorem exists_pack_finite_eq (s : Sign) {m : Nat} {e : Int} (hm : 0 < m) (hlt : m < 2 ^ 53)
    (he : -1074 ≤ e) : ∃ x y, UnpackedFloat.pack .binary64 (.finite s m e hm) =
      packComponents .binary64 s x y ∧ (x = -1#11 → y = 0#52) ∧ ¬ (x = 0#11 ∧ y = 0#52) := by
  have hbias : Format.binary64.exponentBias = 1023 := rfl
  rw [UnpackedFloat.pack]
  simp only [hbias]
  split
  · exact ⟨_, _, rfl, fun _ => rfl, by decide⟩
  · next hbound =>
      split
      · refine ⟨_, _, rfl, fun hx => ?_, fun ⟨hx, _⟩ => ?_⟩
        · have hvalue := congrArg BitVec.toNat hx
          simp only [BitVec.toNat_ofNat] at hvalue
          change _ = 2047 at hvalue
          omega
        · have hvalue := congrArg BitVec.toNat hx
          simp only [BitVec.toNat_ofNat] at hvalue
          omega
      · next hlog =>
          refine ⟨_, _, rfl, fun hx => absurd hx (by decide), fun ⟨_, hy⟩ => ?_⟩
          have hsmall : m < 2 ^ 52 := by
            apply Nat.lt_of_not_le
            intro hge
            have hlog52 : m.log2 = 52 := (Nat.log2_eq_iff (Nat.ne_of_gt hm)).mpr ⟨hge, hlt⟩
            exact hlog (by rw [hlog52]; rfl)
          have hvalue := congrArg BitVec.toNat hy
          simp only [BitVec.toNat_ofNat] at hvalue
          omega

theorem isNonneg_unpack_pack {u : UnpackedFloat} (h : IsNonneg u) (hu : InRange u) :
    IsNonneg (UnpackedFloat.unpack .binary64 (UnpackedFloat.pack .binary64 u)) := by
  cases u with
  | notANumber => exact h.elim
  | zero s => cases s <;> trivial
  | infinity s =>
      cases s with
      | negative => exact h.elim
      | positive => trivial
  | finite s m e hm =>
      cases s with
      | negative => exact h.elim
      | positive =>
          obtain ⟨x, y, hpack, hx, _⟩ := exists_pack_finite_eq .positive hm hu.1 hu.2
          rw [hpack]
          exact isNonneg_unpack_packComponents hx

/-- Only a zero is written as one. -/
theorem isZero_of_isZero_unpack_pack {u : UnpackedFloat} (hu : InRange u)
    (h : IsZero (UnpackedFloat.unpack .binary64 (UnpackedFloat.pack .binary64 u))) : IsZero u := by
  cases u with
  | notANumber => exact absurd (isZero_unpack_packComponents_iff.mp h).1 (by decide)
  | zero s => trivial
  | infinity s => exact absurd (isZero_unpack_packComponents_iff.mp h).1 (by decide)
  | finite s m e hm =>
      obtain ⟨x, y, hpack, _, hne⟩ := exists_pack_finite_eq s hm hu.1 hu.2
      rw [hpack, isZero_unpack_packComponents_iff] at h
      exact absurd h hne

/-! ## Sums -/

theorem IsNonneg.cases {u : UnpackedFloat} (h : IsNonneg u) :
    (∃ s, u = .zero s) ∨ u = .infinity .positive ∨
      ∃ m e, ∃ hm : 0 < m, u = .finite .positive m e hm := by
  cases u with
  | notANumber => exact h.elim
  | zero s => exact .inl ⟨s, rfl⟩
  | infinity s =>
      cases s with
      | negative => exact h.elim
      | positive => exact .inr (.inl rfl)
  | finite s m e hm =>
      cases s with
      | negative => exact h.elim
      | positive => exact .inr (.inr ⟨m, e, hm, rfl⟩)

/-- The digits of two positive numbers add up to those of another, which is rounded to a positive
number. -/
theorem add_finite_finite {m n : Nat} {e f : Int} (hm : 0 < m) (hn : 0 < n) (he : -1074 ≤ e)
    (hf : -1074 ≤ f) : ∃ k g, ∃ hk : 0 < k,
      UnpackedFloat.add .binary64 (.finite .positive m e hm) (.finite .positive n f hn) =
        .finite .positive k g hk ∧ k < 2 ^ 53 ∧ -1074 ≤ g := by
  simp only [UnpackedFloat.add, decreaseExponent, Sign.apply, Nat.shiftLeft_eq]
  have hleft : 0 < m * 2 ^ (e - min e f).toNat := Nat.mul_pos hm (Nat.two_pow_pos _)
  generalize m * 2 ^ (e - min e f).toNat = a at hleft ⊢
  generalize n * 2 ^ (f - min e f).toNat = b
  have hcompare : compare ((a : Int) + b) 0 = .gt := Int.compare_eq_gt.mpr (by omega)
  simp only [UnpackedFloat.normalize, hcompare]
  exact exists_round_eq .positive (by omega) (by omega)

/-- The sum of two numbers that are not negative is not negative, and it is zero only if both are. -/
theorem add_of_isNonneg {u v : UnpackedFloat} (hu : IsNonneg u) (hv : IsNonneg v)
    (hur : InRange u) (hvr : InRange v) :
    IsNonneg (UnpackedFloat.add .binary64 u v) ∧ InRange (UnpackedFloat.add .binary64 u v) ∧
      (IsZero (UnpackedFloat.add .binary64 u v) → IsZero u ∧ IsZero v) := by
  rcases hu.cases with ⟨s, rfl⟩ | rfl | ⟨m, e, hm, rfl⟩
  · rcases hv.cases with ⟨t, rfl⟩ | rfl | ⟨n, f, hn, rfl⟩
    · cases s <;> cases t <;> exact ⟨trivial, trivial, fun _ => ⟨trivial, trivial⟩⟩
    · exact ⟨trivial, trivial, False.elim⟩
    · exact ⟨trivial, hvr, False.elim⟩
  · rcases hv.cases with ⟨t, rfl⟩ | rfl | ⟨n, f, hn, rfl⟩
    · exact ⟨trivial, trivial, False.elim⟩
    · exact ⟨trivial, trivial, False.elim⟩
    · exact ⟨trivial, trivial, False.elim⟩
  · rcases hv.cases with ⟨t, rfl⟩ | rfl | ⟨n, f, hn, rfl⟩
    · exact ⟨trivial, hur, False.elim⟩
    · exact ⟨trivial, trivial, False.elim⟩
    · obtain ⟨k, g, hk, hadd, hlt, hg⟩ := add_finite_finite hm hn hur.2 hvr.2
      rw [hadd]
      exact ⟨trivial, ⟨hlt, hg⟩, False.elim⟩

/-! ## Doubles -/

theorem unpack_zero : (0.0 : Float).toModel.unpack = .zero .positive := by
  rfl

theorem le_iff {x y : Float} :
    x ≤ y ↔ UnpackedFloat.le x.toModel.unpack y.toModel.unpack = true := by
  change decide (x.toModel ≤ y.toModel) = true ↔ _
  rw [decide_eq_true_iff]
  rfl

theorem lt_iff {x y : Float} :
    x < y ↔ UnpackedFloat.lt x.toModel.unpack y.toModel.unpack = true := by
  change decide (x.toModel < y.toModel) = true ↔ _
  rw [decide_eq_true_iff]
  rfl

theorem zero_le_iff {x : Float} : 0.0 ≤ x ↔ IsNonneg x.toModel.unpack := by
  rw [le_iff, unpack_zero, UnpackedFloat.le]
  cases x.toModel.unpack with
  | notANumber => simp [UnpackedFloat.compare, IsNonneg]
  | zero s => simp [UnpackedFloat.compare, IsNonneg]
  | infinity s => cases s <;> simp [UnpackedFloat.compare, IsNonneg]
  | finite s m e hm => cases s <;> simp [UnpackedFloat.compare, IsNonneg]

theorem beq_zero_iff {x : Float} : (x == 0.0) = true ↔ IsZero x.toModel.unpack := by
  have hbeq : (x == 0.0) = UnpackedFloat.beq x.toModel.unpack (0.0 : Float).toModel.unpack := rfl
  rw [hbeq, unpack_zero, UnpackedFloat.beq]
  cases x.toModel.unpack with
  | notANumber => simp [UnpackedFloat.compare, IsZero]
  | zero s => simp [UnpackedFloat.compare, IsZero]
  | infinity s => cases s <;> simp [UnpackedFloat.compare, IsZero]
  | finite s m e hm => cases s <;> simp [UnpackedFloat.compare, IsZero]

/-- A finite number that is not below zero is not negative. -/
theorem zero_le_of_not_lt {x : Float} (hfinite : x.isFinite = true) (h : ¬ x < 0.0) : 0.0 ≤ x := by
  have hfinite : UnpackedFloat.isFinite x.toModel.unpack = true := hfinite
  rw [lt_iff, unpack_zero, UnpackedFloat.lt] at h
  rw [zero_le_iff]
  cases hx : x.toModel.unpack with
  | notANumber => simp [hx, UnpackedFloat.isFinite] at hfinite
  | zero s => trivial
  | infinity s => simp [hx, UnpackedFloat.isFinite] at hfinite
  | finite s m e hm =>
      cases s with
      | negative => simp [hx, UnpackedFloat.compare] at h
      | positive => trivial

theorem isFinite_of_zero_le {x : Float} (h : 0.0 ≤ x) (hinf : ¬ (x.isInf = true ∧ 0.0 < x)) :
    x.isFinite = true := by
  change UnpackedFloat.isFinite x.toModel.unpack = true
  rcases (zero_le_iff.mp h).cases with ⟨s, hx⟩ | hx | ⟨m, e, hm, hx⟩
  · rw [hx]
    rfl
  · have hisInf : UnpackedFloat.isInf x.toModel.unpack = true := by
      rw [hx]
      rfl
    have hpositive : 0.0 < x := by
      rw [lt_iff, unpack_zero, hx]
      rfl
    exact absurd ⟨hisInf, hpositive⟩ hinf
  · rw [hx]
    rfl

theorem isFinite_eq_false_of_isInf {x : Float} (h : x.isInf = true) : x.isFinite = false := by
  have h : UnpackedFloat.isInf x.toModel.unpack = true := h
  change UnpackedFloat.isFinite x.toModel.unpack = false
  cases hx : x.toModel.unpack <;> simp [hx, UnpackedFloat.isInf, UnpackedFloat.isFinite] at h ⊢

theorem not_le_zero_iff {x : Float} (hfinite : x.isFinite = true) : ¬ x ≤ 0.0 ↔ 0.0 < x := by
  have hfinite : UnpackedFloat.isFinite x.toModel.unpack = true := hfinite
  rw [le_iff, lt_iff, unpack_zero, UnpackedFloat.le, UnpackedFloat.lt]
  cases hx : x.toModel.unpack with
  | notANumber => simp [hx, UnpackedFloat.isFinite] at hfinite
  | zero s => simp [UnpackedFloat.compare]
  | infinity s => simp [hx, UnpackedFloat.isFinite] at hfinite
  | finite s m e hm => cases s <;> simp [UnpackedFloat.compare]

theorem unpack_add (x y : Float) : (x + y).toModel.unpack = UnpackedFloat.unpack .binary64
    (UnpackedFloat.pack .binary64
      (UnpackedFloat.add .binary64 x.toModel.unpack y.toModel.unpack)) := by
  rfl

theorem zero_le_add {x y : Float} (hx : 0.0 ≤ x) (hy : 0.0 ≤ y) : 0.0 ≤ x + y := by
  rw [zero_le_iff] at hx hy ⊢
  obtain ⟨hnonneg, hrange, _⟩ := add_of_isNonneg hx hy (inRange_unpack _) (inRange_unpack _)
  rw [unpack_add]
  exact isNonneg_unpack_pack hnonneg hrange

theorem beq_zero_of_add {x y : Float} (hx : 0.0 ≤ x) (hy : 0.0 ≤ y) (h : (x + y == 0.0) = true) :
    (x == 0.0) = true ∧ (y == 0.0) = true := by
  rw [zero_le_iff] at hx hy
  obtain ⟨_, hrange, hzero⟩ := add_of_isNonneg hx hy (inRange_unpack _) (inRange_unpack _)
  rw [beq_zero_iff, unpack_add] at h
  rw [beq_zero_iff, beq_zero_iff]
  exact hzero (isZero_of_isZero_unpack_pack hrange h)

/-! ## Running sums -/

theorem zero_le_foldl {x : Float} {ys : List Float} (hx : 0.0 ≤ x) (hys : ∀ y ∈ ys, 0.0 ≤ y) :
    0.0 ≤ ys.foldl (· + ·) x := by
  induction ys generalizing x with
  | nil => exact hx
  | cons y ys ih =>
      obtain ⟨hy, hrest⟩ := List.forall_mem_cons.mp hys
      exact ih (zero_le_add hx hy) hrest

/-- A sum of numbers that are not negative is zero only if all of them are. -/
theorem beq_zero_of_foldl {x : Float} {ys : List Float} (hx : 0.0 ≤ x) (hys : ∀ y ∈ ys, 0.0 ≤ y)
    (h : (ys.foldl (· + ·) x == 0.0) = true) :
    (x == 0.0) = true ∧ ∀ y ∈ ys, (y == 0.0) = true := by
  induction ys generalizing x with
  | nil => exact ⟨h, by simp⟩
  | cons y ys ih =>
      obtain ⟨hy, hrest⟩ := List.forall_mem_cons.mp hys
      obtain ⟨hxy, hzero⟩ := ih (zero_le_add hx hy) hrest h
      obtain ⟨hx0, hy0⟩ := beq_zero_of_add hx hy hxy
      exact ⟨hx0, List.forall_mem_cons.mpr ⟨hy0, hzero⟩⟩

end Roadworks.Binary64
