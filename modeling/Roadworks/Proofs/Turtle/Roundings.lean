import Roadworks.Proofs.Exact.Turning
import Roadworks.Proofs.Scalar.Remainders
import Roadworks.Proofs.Turtle.Headings
/-! # Numbers in which headings stay within a turn

Reals whose sums are rounded in any way that keeps the order, zero and the turn are such numbers.
Doubles are: their sums with the turn are those of one rounding of the reals. There no turn of a
sound configuration leaves the finite numbers, so nothing has to be assumed about it. -/

namespace Roadworks

/-! ## Reals with any rounding -/

/-- The reals, with sums that are rounded. -/
noncomputable abbrev Scalar.rounding (round : ℝ → ℝ) : Scalar ℝ :=
  { (inferInstance : Scalar ℝ) with add := fun x y => round (x + y) }

/-- Sums of reals may be rounded in any way that keeps the order, zero and the turn. -/
theorem roundsBy_rounding {round : ℝ → ℝ} (h : IsRounding (2 * Real.pi) round) :
    @RoundsBy ℝ (Scalar.rounding round) id round := by
  have htau : @Scalar.tau ℝ (Scalar.rounding round) = 2 * Real.pi := tau_eq
  have hpos := Real.two_pi_pos
  let := Scalar.rounding round
  constructor
  case isRounding => rwa [htau]
  case isFinite_zero => rfl
  case isFinite_tau => rfl
  case value_zero => exact decimal_zero
  case tau_pos => rwa [htau]
  case lt_iff => exact fun _ _ _ _ => Iff.rfl
  case le_iff => exact fun _ _ _ _ => Iff.rfl
  case rem =>
    intro x _
    rw [htau]
    exact ⟨rfl, isRemainder_rem hpos x⟩
  case rem_eq_self =>
    intro x _ hx
    rw [htau] at hx ⊢
    exact (isRemainder_rem hpos x).eq_of_abs_lt (hx.trans_eq (abs_of_pos hpos).symm)
  case add_tau => exact fun _ _ _ _ => ⟨rfl, rfl⟩
  case isFinite_add_pi => exact fun _ _ _ _ => rfl

/-! ## Doubles -/

/-- Rounded sums that keep the order of the exact ones are those of some rounding. -/
theorem exists_isRounding {ι : Type} {exact sum : ι → ℝ} {turn : ℝ}
    (hmono : ∀ x y, exact x ≤ exact y → sum x ≤ sum y) (hbounds : ∀ x, sum x ∈ Set.Icc 0 turn)
    (hstart : ∃ x, exact x = 0 ∧ sum x = 0) (hstop : ∃ x, exact x = turn ∧ sum x = turn) :
    ∃ round, IsRounding turn round ∧ ∀ x, round (exact x) = sum x := by
  have hfactors : sum.FactorsThrough exact := fun x y h =>
    le_antisymm (hmono x y h.le) (hmono y x h.ge)
  have hmonotone : MonotoneOn (Function.extend exact sum 0) (Set.range exact) := by
    rintro _ ⟨x, rfl⟩ _ ⟨y, rfl⟩ h
    rw [hfactors.extend_apply, hfactors.extend_apply]
    exact hmono x y h
  have himage : Function.extend exact sum 0 '' Set.range exact ⊆ Set.Icc 0 turn := by
    rintro _ ⟨_, ⟨x, rfl⟩, rfl⟩
    rw [hfactors.extend_apply]
    exact hbounds x
  obtain ⟨round, hround, hsum⟩ := hmonotone.exists_monotone_extension
    (bddBelow_Icc.mono himage) (bddAbove_Icc.mono himage)
  have hvalue (x : ι) : round (exact x) = sum x := by
    rw [← hsum ⟨x, rfl⟩, hfactors.extend_apply]
  obtain ⟨start, hstart, hzero⟩ := hstart
  obtain ⟨stop, hstop, hturn⟩ := hstop
  refine ⟨round, ⟨hround, ?_, ?_⟩, hvalue⟩
  · rw [← hstart, hvalue, hzero, hstart]
  · rw [← hstop, hvalue, hturn, hstop]

namespace Binary64

open Float.Model

variable {x y z : Float}

/-- Sums with one number are ordered as what is added to it. -/
theorem toReal_add_le (hx : x.isFinite = true) (hy : y.isFinite = true) (hz : z.isFinite = true)
    (hxz : (x + z).isFinite = true) (hyz : (y + z).isFinite = true)
    (hnonneg : 0 ≤ toReal x + toReal z) (h : toReal x ≤ toReal y) :
    toReal (x + z) ≤ toReal (y + z) := by
  obtain ⟨t, ht⟩ := (approximates_iff hxz).mp (approximates_add hx hz)
  obtain ⟨u, hu⟩ := (approximates_iff hyz).mp (approximates_add hy hz)
  rcases h.lt_or_eq with hlt | heq
  · exact ht.le_of_lt hu hnonneg (by linarith)
  by_cases hzero : toReal x = 0
  · -- Zeros of both signs leave the other number as it is.
    rw [hzero, zero_add] at ht
    rw [← heq, hzero, zero_add] at hu
    rw [ht.eq_toReal hz, hu.eq_toReal hz]
  · have hsame : x = y := eq_of_unpack_eq
      (eq_of_value_eq (isCanonical_unpack _) (isCanonical_unpack _) hx hy hzero heq)
    rw [hsame]

theorem toReal_tau : toReal Scalar.tau = 7074237752028440 * 2 ^ (-50 : ℤ) := by
  have htau : toReal (Scalar.tau : Float) = (7074237752028440 : ℕ) * 2 ^ (-50 : ℤ) :=
    toReal_ofBits (b := 0x401921FB54442D18) (by decide) rfl rfl
  rw [htau]
  norm_num

theorem isFinite_tau : (Scalar.tau : Float).isFinite = true := rfl

theorem tau_bounds : 0 < toReal Scalar.tau ∧ toReal Scalar.tau < 7 := by
  rw [toReal_tau]
  norm_num

theorem isFinite_add_of_lt (hx : x.isFinite = true) (hy : y.isFinite = true)
    (hsmall : |toReal x| < 7) (hsmall' : |toReal y| < 7) : (x + y).isFinite = true := by
  refine (approximates_add hx hy).isFinite ((abs_add_le _ _).trans_lt ?_)
  calc |toReal x| + |toReal y| < 7 + 7 := add_lt_add hsmall hsmall'
    _ < 2 ^ 4 := by norm_num
    _ < 2 ^ 1023 := pow_lt_pow_right₀ one_lt_two (by norm_num)

/-- Some rounding of the reals gives the sums of all remainders with the turn. -/
theorem exists_rounding : ∃ round, IsRounding (toReal Scalar.tau) round ∧
    ∀ x : Float, x.isFinite = true → -toReal Scalar.tau < toReal x → toReal x < 0 →
      (x + Scalar.tau).isFinite = true ∧
        toReal (x + Scalar.tau) = round (toReal x + toReal Scalar.tau) := by
  obtain ⟨hpos, hseven⟩ := tau_bounds
  have htau := isFinite_tau
  -- What is added to the turn; zero and the turn are the sums at both ends.
  let Rest := { x : Float // x.isFinite = true ∧ -toReal Scalar.tau ≤ toReal x ∧ toReal x ≤ 0 }
  have hfinite (x : Rest) : (x.val + Scalar.tau).isFinite = true := by
    refine isFinite_add_of_lt x.2.1 htau ?_ ((abs_of_pos hpos).trans_lt hseven)
    rw [abs_of_nonpos x.2.2.2]
    linarith [x.2.2.1]
  have hrounded (x : Rest) :
      ∃ t, IsRounded (toReal x.val + toReal Scalar.tau) (toReal (x.val + Scalar.tau)) t :=
    (approximates_iff (hfinite x)).mp (approximates_add x.2.1 htau)
  have hmono (x y : Rest) (h : toReal x.val + toReal Scalar.tau ≤ toReal y.val + toReal Scalar.tau) :
      toReal (x.val + Scalar.tau) ≤ toReal (y.val + Scalar.tau) :=
    toReal_add_le x.2.1 y.2.1 htau (hfinite x) (hfinite y) (by linarith [x.2.2.1])
      (le_of_add_le_add_right h)
  have hends (z : Float) (hz : z.isFinite = true) (x : Rest)
      (hx : toReal x.val + toReal Scalar.tau = toReal z) :
      toReal (x.val + Scalar.tau) = toReal z := by
    obtain ⟨t, ht⟩ := hrounded x
    rw [hx] at ht
    exact ht.eq_toReal hz
  have hbounds (x : Rest) : toReal (x.val + Scalar.tau) ∈ Set.Icc 0 (toReal Scalar.tau) := by
    obtain ⟨t, ht⟩ := hrounded x
    have hle : toReal x.val + toReal Scalar.tau ≤ toReal Scalar.tau := by linarith [x.2.2.2]
    exact ⟨ht.nonneg (by linarith [x.2.2.1]), ht.le_value (isCanonical_unpack _) htau hle⟩
  have hzero : toReal 0.0 = 0 := rfl
  obtain ⟨hopposite, hneg⟩ := toReal_neg htau
  have hstart := hends 0.0 rfl ⟨-Scalar.tau, hopposite, hneg.ge, by linarith⟩ (by linarith)
  have hstop := hends Scalar.tau htau ⟨0.0, rfl, by linarith, hzero.le⟩ (by linarith)
  obtain ⟨round, hround, hsum⟩ := exists_isRounding hmono hbounds ⟨_, by linarith, hstart.trans hzero⟩
    ⟨_, by linarith, hstop⟩
  exact ⟨round, hround, fun x hx hlow hneg =>
    ⟨hfinite ⟨x, hx, hlow.le, hneg.le⟩, (hsum ⟨x, hx, hlow.le, hneg.le⟩).symm⟩⟩

theorem toReal_pi : toReal Scalar.pi = 7074237752028440 * 2 ^ (-51 : ℤ) := by
  have hpi : toReal (Scalar.pi : Float) = (7074237752028440 : ℕ) * 2 ^ (-51 : ℤ) :=
    toReal_ofBits (b := 0x400921FB54442D18) (by decide) rfl rfl
  rw [hpi]
  norm_num

theorem exists_roundsBy : ∃ round, RoundsBy toReal round := by
  obtain ⟨hpos, hseven⟩ := tau_bounds
  obtain ⟨round, hround, hsum⟩ := exists_rounding
  have hsize : |toReal Scalar.tau| < 2 ^ 1023 := by
    rw [abs_of_pos hpos]
    exact (hseven.trans (by norm_num : (7 : ℝ) < 2 ^ 3)).trans
      (pow_lt_pow_right₀ one_lt_two (by norm_num))
  refine ⟨round, ?_⟩
  constructor
  case isRounding => exact hround
  case isFinite_zero => rfl
  case isFinite_tau => exact isFinite_tau
  case value_zero => rfl
  case tau_pos => exact hpos
  case lt_iff => exact fun _ _ => lt_iff_toReal
  case le_iff => exact fun _ _ => le_iff_toReal
  case rem => exact fun x hx => isRemainder_rem hx isFinite_tau hpos.ne' hsize
  case rem_eq_self =>
    intro x hx hlt
    exact rem_eq_self hx isFinite_tau hsize (hlt.trans_eq (abs_of_pos hpos).symm)
  case add_tau => exact hsum
  case isFinite_add_pi =>
    intro x hx hlow hhigh
    refine isFinite_add_of_lt hx rfl ?_ ?_
    · rw [abs_of_nonneg hlow]
      exact hhigh.trans hseven
    · rw [toReal_pi]
      norm_num

/-! ### Turns of a configuration -/

theorem Approximates.abs_le {x : ℝ} (h : Approximates z x) {k : ℕ} (hk : k < 1023)
    (hx : |x| ≤ 2 ^ k) : z.isFinite = true ∧ |toReal z| ≤ 2 ^ (k + 1) := by
  have hfinite := h.isFinite (hx.trans_lt (pow_lt_pow_right₀ one_lt_two hk))
  obtain ⟨t, ht⟩ := (approximates_iff hfinite).mp h
  have herror := ht.abs_sub_le_of_abs_le hx
  have hone : (1 : ℝ) ≤ 2 ^ k := one_le_pow₀ one_le_two
  have hback := abs_sub_abs_le_abs_sub (toReal z) x
  refine ⟨hfinite, ?_⟩
  rw [pow_succ]
  linarith

theorem toReal_degree : toReal (Scalar.pi / 180.0) = 5030569068109113 * 2 ^ (-58 : ℤ) := by
  have hdegree : toReal (Scalar.pi / 180.0) = (5030569068109113 : ℕ) * 2 ^ (-58 : ℤ) :=
    toReal_ofBits (b := 0x3F91DF46A2529D39) (by decide) rfl rfl
  rw [hdegree]
  norm_num

/-- An angle in radians is far from the largest double. -/
theorem radians_bounds (hx : x.isFinite = true) :
    (Scalar.radians x).isFinite = true ∧ |toReal (Scalar.radians x)| ≤ 2 ^ 1020 := by
  refine (approximates_mul hx rfl).abs_le (by norm_num) ?_
  have hsmall : |toReal (Scalar.pi / 180.0)| ≤ 2 ^ (-5 : ℤ) := by
    rw [toReal_degree]
    norm_num
  rw [abs_mul]
  calc |toReal x| * |toReal (Scalar.pi / 180.0)| ≤ 2 ^ (1024 : ℤ) * 2 ^ (-5 : ℤ) :=
        mul_le_mul (abs_toReal_lt x).le hsmall (abs_nonneg _) (by positivity)
    _ = 2 ^ 1019 := by
        rw [← zpow_add₀ two_ne_zero]
        rfl

theorem turnsFinitely (hx : x.isFinite = true) {factor : Float} (hfactor : factor.isFinite = true)
    (hone : |toReal factor| = 1) : (TurtleOp.turn factor).TurnsFinitely (Scalar.radians x) := by
  intro h hh
  obtain ⟨hpos, hseven⟩ := tau_bounds
  obtain ⟨round, hround⟩ := exists_roundsBy
  obtain ⟨hlow, hhigh⟩ := (hround.isHeading_iff hh.1).mp hh
  obtain ⟨hangle, hsize⟩ := radians_bounds hx
  obtain ⟨hturn, hsize⟩ := (approximates_mul hangle hfactor).abs_le (k := 1020) (by norm_num) (by
    rwa [abs_mul, hone, mul_one])
  have hheading : |toReal h| ≤ 2 ^ 1021 := by
    rw [abs_of_nonneg hlow]
    calc toReal h ≤ 2 ^ 3 := by linarith
      _ ≤ 2 ^ 1021 := pow_le_pow_right₀ one_le_two (by norm_num)
  refine ((approximates_add hh.1 hturn).abs_le (k := 1022) (by norm_num) ?_).1
  calc |toReal h + _| ≤ 2 ^ 1021 + 2 ^ 1021 := (abs_add_le _ _).trans (add_le_add hheading hsize)
    _ = 2 ^ 1022 := by
        rw [← two_mul, ← pow_succ']

/-- No turn of a sound configuration leaves the finite doubles. -/
theorem turnsFinitely_of_validateTurtle {c : GrammarConfig Float}
    (hvalid : c.validateTurtle = .ok ()) : c.TurnsFinitely := by
  have hangle : Scalar.isFinite c.turnAngle = true := by
    rw [GrammarConfig.validateTurtle] at hvalid
    split at hvalid
    · cases hvalid
    · split at hvalid
      · cases hvalid
      · next hfinite => simpa using hfinite
  obtain ⟨hneg, hvalue⟩ := toReal_neg (x := 1.0) rfl
  intro factor hfactor
  rcases List.mem_pair.mp hfactor with rfl | rfl
  · exact turnsFinitely hangle rfl (by rw [toReal_one, abs_one])
  · exact turnsFinitely hangle hneg (by rw [hvalue, toReal_one, abs_neg, abs_one])

end Binary64

/-! ## Every rounding -/

/-- Headings survive rounding: every finite angle is brought into the turn, and no turtle leaves it,
whatever keeps the order, zero and the turn in rounding sums. Reals with any such rounding and
doubles are numbers of this kind; in doubles no turn of a sound configuration is too large. -/
theorem headings_survive_rounding :
    (∀ (α : Type) [Scalar α] (value : α → ℝ) (round : ℝ → ℝ), RoundsBy value round →
      (∀ x : α, Scalar.isFinite x = true → IsWrapped value round x) ∧
      ∀ c : GrammarConfig α, c.validateTurtle = .ok () → c.TurnsFinitely → c.KeepsHeadings) ∧
    (∀ round, IsRounding (2 * Real.pi) round → @RoundsBy ℝ (Scalar.rounding round) id round) ∧
    (∃ round, RoundsBy Binary64.toReal round) ∧
    ∀ c : GrammarConfig Float, c.validateTurtle = .ok () → c.TurnsFinitely :=
  ⟨fun _ _ _ _ h => ⟨fun _ hx => h.isWrapped hx, fun _ => h.keepsHeadings⟩,
    fun _ => roundsBy_rounding, Binary64.exists_roundsBy,
    fun _ => Binary64.turnsFinitely_of_validateTurtle⟩

/-- A tiny angle to the right is rounded to the full turn, which counts as none. -/
theorem headings_survive_rounding_tiny :
    (Scalar.rem (-1e-18) Scalar.tau + Scalar.tau == (Scalar.tau : Float)) = true ∧
    (∃ round, RoundsBy Binary64.toReal round ∧ IsWrapped Binary64.toReal round (-1e-18)) ∧
    normalizeAngle (-1e-18) = (0.0 : Float) ∧
    (GrammarConfig.default : GrammarConfig Float).validateTurtle = .ok () ∧
    (GrammarConfig.default : GrammarConfig Float).KeepsHeadings := by
  obtain ⟨round, hround⟩ := headings_survive_rounding.2.2.1
  obtain ⟨hwrapped, hkeeps⟩ := headings_survive_rounding.1 Float Binary64.toReal round hround
  have hvalid : (GrammarConfig.default : GrammarConfig Float).validateTurtle = .ok () := rfl
  refine ⟨rfl, ⟨round, hround, hwrapped _ rfl⟩, by decide +kernel, hvalid,
    hkeeps _ hvalid (headings_survive_rounding.2.2.2 _ hvalid)⟩

end Roadworks
