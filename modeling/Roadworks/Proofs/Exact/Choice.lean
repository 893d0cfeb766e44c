import Roadworks.Proofs.Exact.Reals
import Roadworks.Proofs.Grammar.Rewriting
/-! # Choosing by exact weights

Laid out one after the other from zero, exact weights cover the numbers up to their sum. A random word
is read as a number below the sum, and the candidate it falls on is chosen. Weights of zero cover
nothing, and a common factor of all weights is a factor of the number as well. -/

namespace Roadworks

/-- The candidate with its weight multiplied by a factor. -/
noncomputable def Production.scaled (p : Production ℝ) (k : ℝ) : Production ℝ :=
  { p with weight := k * p.weight }

/-- The second list comes from the first when candidates of weight zero are inserted anywhere. -/
inductive Diluted : List (Production ℝ) → List (Production ℝ) → Prop where
  | nil : Diluted [] []
  | keep (p : Production ℝ) {ps qs : List (Production ℝ)} :
    Diluted ps qs → Diluted (p :: ps) (p :: qs)
  | insert {p : Production ℝ} {ps qs : List (Production ℝ)} :
    p.weight = 0 → Diluted ps qs → Diluted ps (p :: qs)

/-- The sum of the weights of candidates. -/
noncomputable def weightSum (ps : List (Production ℝ)) : ℝ := (ps.map (·.weight)).sum

theorem weightSum_cons (p : Production ℝ) (ps : List (Production ℝ)) :
    weightSum (p :: ps) = p.weight + weightSum ps := by
  simp [weightSum]

/-- The candidate on which a number falls. -/
noncomputable def pick (drawn : ℝ) : List (Production ℝ) → Option (Production ℝ)
  | [] => none
  | p :: rest => if drawn < p.weight then some p else pick (drawn - p.weight) rest

/-! ## Where a number falls -/

theorem exists_pick_eq_some {drawn : ℝ} {ps : List (Production ℝ)} (h : drawn < weightSum ps)
    (hdrawn : 0 ≤ drawn) : ∃ p ∈ ps, 0 < p.weight ∧ pick drawn ps = some p := by
  induction ps generalizing drawn with
  | nil => exact absurd h (by simpa [weightSum] using hdrawn)
  | cons p ps ih =>
      rw [pick]
      split
      · next hp => exact ⟨p, List.mem_cons_self, hdrawn.trans_lt hp, rfl⟩
      · next hp =>
          rw [weightSum_cons] at h
          have hrest : drawn - p.weight < weightSum ps := by linarith
          obtain ⟨q, hq, hpositive, hpick⟩ := ih hrest (by linarith)
          exact ⟨q, List.mem_cons_of_mem p hq, hpositive, hpick⟩

/-- Nothing falls on a candidate of weight zero. -/
theorem Diluted.pick_eq {ps qs : List (Production ℝ)} (h : Diluted ps qs) {drawn : ℝ}
    (hdrawn : 0 ≤ drawn) : pick drawn qs = pick drawn ps := by
  induction h generalizing drawn with
  | nil => rfl
  | keep p _ ih =>
      rw [pick, pick]
      split
      · rfl
      · next hp => exact ih (by linarith)
  | insert hp _ ih => rw [pick, hp, if_neg (not_lt.mpr hdrawn), sub_zero, ih hdrawn]

theorem Diluted.weightSum_eq {ps qs : List (Production ℝ)} (h : Diluted ps qs) :
    weightSum qs = weightSum ps := by
  induction h with
  | nil => rfl
  | keep p _ ih => rw [weightSum_cons, weightSum_cons, ih]
  | insert hp _ ih => rw [weightSum_cons, hp, zero_add, ih]

theorem Diluted.sublist {ps qs : List (Production ℝ)} (h : Diluted ps qs) : ps.Sublist qs := by
  induction h with
  | nil => exact .slnil
  | keep p _ ih => exact ih.cons_cons p
  | insert _ _ ih => exact ih.cons _

theorem pick_scaled {k : ℝ} (hk : 0 < k) (drawn : ℝ) (ps : List (Production ℝ)) :
    pick (k * drawn) (ps.map (·.scaled k)) = (pick drawn ps).map (·.scaled k) := by
  induction ps generalizing drawn with
  | nil => rfl
  | cons p ps ih =>
      have hlt : k * drawn < (p.scaled k).weight ↔ drawn < p.weight := mul_lt_mul_iff_right₀ hk
      have hsub : k * drawn - (p.scaled k).weight = k * (drawn - p.weight) := (mul_sub ..).symm
      rw [List.map_cons, pick, pick, hsub, ih]
      by_cases h : drawn < p.weight
      · rw [if_pos h, if_pos (hlt.mpr h)]
        rfl
      · rw [if_neg h, if_neg fun h' => h (hlt.mp h')]

theorem weightSum_scaled (k : ℝ) (ps : List (Production ℝ)) :
    weightSum (ps.map (·.scaled k)) = k * weightSum ps := by
  induction ps with
  | nil => simp [weightSum]
  | cons p ps ih => rw [List.map_cons, weightSum_cons, weightSum_cons, ih, mul_add]; rfl

/-! ## Weights that pass their check -/

theorem checkProductions_eq_ok_iff_real {symbol : Char} {ps : List (Production ℝ)} :
    GrammarConfig.checkProductions symbol ps = .ok () ↔
      (∀ p ∈ ps, 0 ≤ p.weight) ∧ ∃ p ∈ ps, 0 < p.weight := by
  have hzero : (0.0 : ℝ) = 0 := by norm_num
  have hfinite (x : ℝ) : Scalar.isFinite x = true := rfl
  have hbeq (x : ℝ) : Scalar.toBEq.beq x 0 = true ↔ x = 0 := decide_eq_true_iff
  rw [GrammarConfig.checkProductions_eq_ok_iff]
  simp only [hzero, hfinite, true_and, hbeq, not_lt]
  constructor
  · rintro ⟨_, hnonneg, p, hp, hne⟩
    exact ⟨hnonneg, p, hp, lt_of_le_of_ne (hnonneg p hp) (Ne.symm hne)⟩
  · rintro ⟨hnonneg, p, hp, hpositive⟩
    exact ⟨List.ne_nil_of_mem hp, hnonneg, p, hp, ne_of_gt hpositive⟩

theorem Diluted.checkProductions {symbol : Char} {ps qs : List (Production ℝ)} (h : Diluted ps qs)
    (hcheck : GrammarConfig.checkProductions symbol ps = .ok ()) :
    GrammarConfig.checkProductions symbol qs = .ok () := by
  obtain ⟨hnonneg, p, hp, hpositive⟩ := checkProductions_eq_ok_iff_real.mp hcheck
  refine checkProductions_eq_ok_iff_real.mpr ⟨?_, p, h.sublist.subset hp, hpositive⟩
  clear hp hpositive hcheck
  induction h with
  | nil => simp
  | keep p _ ih =>
      obtain ⟨hp, hps⟩ := List.forall_mem_cons.mp hnonneg
      exact List.forall_mem_cons.mpr ⟨hp, ih hps⟩
  | insert hp _ ih => exact List.forall_mem_cons.mpr ⟨hp.ge, ih hnonneg⟩

theorem checkProductions_scaled {symbol : Char} {ps : List (Production ℝ)} {k : ℝ} (hk : 0 < k)
    (hcheck : GrammarConfig.checkProductions symbol ps = .ok ()) :
    GrammarConfig.checkProductions symbol (ps.map (·.scaled k)) = .ok () := by
  obtain ⟨hnonneg, p, hp, hpositive⟩ := checkProductions_eq_ok_iff_real.mp hcheck
  refine checkProductions_eq_ok_iff_real.mpr
    ⟨List.forall_mem_map.mpr fun q hq => ?_, _, List.mem_map_of_mem hp, mul_pos hk hpositive⟩
  exact mul_nonneg hk.le (hnonneg q hq)

theorem weightSum_pos {symbol : Char} {ps : List (Production ℝ)}
    (h : GrammarConfig.checkProductions symbol ps = .ok ()) : 0 < weightSum ps := by
  obtain ⟨hnonneg, p, hp, hpositive⟩ := checkProductions_eq_ok_iff_real.mp h
  refine hpositive.trans_le (List.single_le_sum ?_ _ (List.mem_map_of_mem hp))
  simpa using hnonneg

/-! ## What a random word chooses -/

namespace Weighted

/-- A random word as a number from zero to one, without one. -/
noncomputable def fraction (word : UInt64) : ℝ := (word.toNat >>> 12 : ℕ) / (2 ^ 52 : ℕ)

theorem fraction_nonneg (word : UInt64) : 0 ≤ fraction word := by
  unfold fraction
  positivity

theorem fraction_lt_one (word : UInt64) : fraction word < 1 := by
  have hword : word.toNat >>> 12 < 2 ^ 52 := by
    rw [Nat.shiftRight_eq_div_pow]
    have := word.toNat_lt
    omega
  rw [fraction, div_lt_one (by positivity)]
  exact_mod_cast hword

theorem total_eq_weightSum (ps : List (Production ℝ)) :
    total (ps.map (·.weight)) = weightSum ps := by
  cases ps with
  | nil =>
      change (0.0 : ℝ) = 0
      norm_num
  | cons p ps =>
      rw [weightSum_cons]
      exact List.foldl_eq_apply_foldr

/-- Exact arithmetic leaves the scale at the total. -/
theorem lower_eq {t : ℝ} (ht : 0 < t) (fuel : Nat) : lower fuel t t = t := by
  have htop : (topFraction : ℝ) < 1 := by
    change ((2 ^ 52 - 1 : ℕ) : ℝ) / ((2 ^ 52 : ℕ) : ℝ) < 1
    rw [div_lt_one (by positivity)]
    exact_mod_cast Nat.sub_lt (Nat.two_pow_pos 52) Nat.one_pos
  cases fuel with
  | zero => rfl
  | succ fuel => rw [lower, if_neg (not_le.mpr (mul_lt_of_lt_one_right ht htop))]

/-- The running sums that a number has passed lead to the candidate on which it falls. -/
theorem getElem?_takeWhile_sums (drawn before : ℝ) (p : Production ℝ) (rest : List (Production ℝ))
    (h : drawn < before + weightSum (p :: rest)) :
    (p :: rest)[((sums (before + p.weight) (rest.map (·.weight))).1.takeWhile
      fun c => decide (c ≤ drawn)).length]? = pick (drawn - before) (p :: rest) := by
  induction rest generalizing before p with
  | nil =>
      have hp : drawn - before < p.weight := by
        simp [weightSum] at h
        linarith
      rw [pick, if_pos hp]
      rfl
  | cons q rest ih =>
      rw [List.map_cons, sums, List.takeWhile_cons, pick]
      by_cases hp : before + p.weight ≤ drawn
      · rw [weightSum_cons, ← add_assoc] at h
        rw [if_pos (decide_eq_true hp), List.length_cons, List.getElem?_cons_succ, ih _ _ h,
          if_neg (by linarith), sub_sub]
      · rw [if_neg (by simpa using hp), if_pos (by linarith)]
        rfl

end Weighted

open Weighted

/-- The candidate that a random word chooses. -/
noncomputable def chosen (ps : List (Production ℝ)) (word : UInt64) : Option (Production ℝ) :=
  pick (fraction word * weightSum ps) ps

section

variable {symbol : Char} {ps : List (Production ℝ)}

theorem exists_ofWeights_chosen (h : GrammarConfig.checkProductions symbol ps = .ok ()) :
    ∃ choice, ofWeights (ps.map (·.weight)) = .ok choice ∧
      ∀ word, ps[choice.choose word]? = chosen ps word := by
  have hpositive := weightSum_pos h
  obtain ⟨hnonneg, p₀, hp₀, _⟩ := checkProductions_eq_ok_iff_real.mp h
  cases ps with
  | nil => cases hp₀
  | cons p rest =>
      have hzero : (0.0 : ℝ) = 0 := by norm_num
      have htotal := total_eq_weightSum (p :: rest)
      have hweights : ∀ w ∈ (p :: rest).map (·.weight), (0.0 : ℝ) ≤ w := by
        simpa [hzero] using hnonneg
      have hne : ¬ (total ((p :: rest).map (·.weight)) == 0.0) = true := by
        rw [htotal, hzero]
        exact fun h => ne_of_gt hpositive (of_decide_eq_true h)
      have hchoice := (ofWeights_eq hweights hne).trans (if_pos rfl)
      rw [← List.map_cons, htotal, lower_eq hpositive] at hchoice
      refine ⟨_, hchoice, fun word => ?_⟩
      have hlt : fraction word * weightSum (p :: rest) < 0 + weightSum (p :: rest) := by
        rw [zero_add]
        exact mul_lt_of_lt_one_left hpositive (fraction_lt_one word)
      have hpick := getElem?_takeWhile_sums _ 0 p rest hlt
      rw [zero_add, sub_zero] at hpick
      exact hpick

/-- A random word chooses a candidate, and one of positive weight. -/
theorem exists_chosen_eq_some (h : GrammarConfig.checkProductions symbol ps = .ok ())
    (word : UInt64) : ∃ p ∈ ps, 0 < p.weight ∧ chosen ps word = some p := by
  have hpositive := weightSum_pos h
  refine exists_pick_eq_some ?_ (mul_nonneg (fraction_nonneg word) hpositive.le)
  exact mul_lt_of_lt_one_left hpositive (fraction_lt_one word)

end

theorem Diluted.chosen_eq {ps qs : List (Production ℝ)} (h : Diluted ps qs)
    (hps : 0 ≤ weightSum ps) (word : UInt64) : chosen qs word = chosen ps word := by
  rw [chosen, chosen, h.weightSum_eq, h.pick_eq (mul_nonneg (fraction_nonneg word) hps)]

theorem chosen_scaled {k : ℝ} (hk : 0 < k) (ps : List (Production ℝ)) (word : UInt64) :
    chosen (ps.map (·.scaled k)) word = (chosen ps word).map (·.scaled k) := by
  rw [chosen, chosen, weightSum_scaled, mul_left_comm, pick_scaled hk]

end Roadworks
