import Roadworks.Grammar.Expansion
import Roadworks.Proofs.Network.Soundness
import Roadworks.Proofs.Scalar.Doubles
/-! # Weights that pass their check allow a choice

A check looks at every weight by itself, a choice at their sum. The check is enough unless the sum
is infinite: a sum of doubles that are not negative is a number, and it is zero only if all are. -/

namespace Roadworks

namespace Weighted

variable {α : Type} [Scalar α]

/-- The sum of weights, taken in their order. -/
def total : List α → α
  | [] => 0.0
  | w :: rest => rest.foldl (· + ·) w

/-- The sum of weights is infinite. -/
def Overflows (ws : List Float) : Prop := (total ws).isInf = true ∧ 0.0 < total ws

instance (ws : List Float) : Decidable (Overflows ws) :=
  inferInstanceAs (Decidable (_ ∧ _))

theorem sums_snd (t : α) (ws : List α) : (sums t ws).2 = ws.foldl (· + ·) t := by
  induction ws generalizing t with
  | nil => rfl
  | cons w ws ih => exact ih (t + w)

/-- Weights that are not negative and not all zero allow a choice unless their sum is infinite. -/
theorem ofWeights_eq {w : α} {rest : List α} (hnonneg : ∀ v ∈ w :: rest, 0.0 ≤ v)
    (hzero : ¬ (total (w :: rest) == 0.0) = true) :
    ofWeights (w :: rest) = if Scalar.isFinite (total (w :: rest)) then
      .ok ⟨(sums w rest).1, lower 8 (total (w :: rest)) (total (w :: rest))⟩
    else .error .overflow := by
  have hvalid : ¬ ((w :: rest).any fun v => !decide (0.0 ≤ v)) = true := by
    simpa using List.forall_mem_cons.mp hnonneg
  have htotal : (sums w rest).2 = total (w :: rest) := sums_snd w rest
  rw [ofWeights, if_neg hvalid]
  simp only [htotal]
  rw [if_neg hzero]
  cases Scalar.isFinite (total (w :: rest)) <;> rfl

theorem exists_ofWeights_eq_ok {ws : List α} (hne : ws ≠ []) (hnonneg : ∀ w ∈ ws, 0.0 ≤ w)
    (hzero : ¬ (total ws == 0.0) = true) (hfinite : Scalar.isFinite (total ws) = true) :
    ∃ choice, ofWeights ws = .ok choice := by
  cases ws with
  | nil => exact absurd rfl hne
  | cons w rest => exact ⟨_, by rw [ofWeights_eq hnonneg hzero, if_pos hfinite]⟩

end Weighted

namespace GrammarConfig

variable {α : Type} [Scalar α]

theorem find?_badWeight_eq_none_iff {ps : List (Production α)} :
    (ps.find? fun p => badWeight p.weight) = none ↔
      ∀ p ∈ ps, Scalar.isFinite p.weight = true ∧ ¬ p.weight < 0.0 := by
  simp [badWeight]

theorem checkProductions_eq_ok_iff {symbol : Char} {ps : List (Production α)} :
    checkProductions symbol ps = .ok () ↔ ps ≠ [] ∧
      (∀ p ∈ ps, Scalar.isFinite p.weight = true ∧ ¬ p.weight < 0.0) ∧
      ∃ p ∈ ps, ¬ (p.weight == 0.0) = true := by
  rw [checkProductions, ← find?_badWeight_eq_none_iff]
  by_cases hne : ps = []
  · simp [hne]
  · rw [if_neg (by simpa using hne)]
    cases ps.find? fun p => badWeight p.weight with
    | some p => simp
    | none => simp [hne]

theorem validateGrammar_eq_ok_iff {c : GrammarConfig α} :
    c.validateGrammar = .ok () ↔ c.start ≠ [] ∧ c.rules.entries ≠ [] ∧ ¬ c.iterations < 0 ∧
      ∀ e ∈ c.rules.entries, checkProductions e.1 e.2 = .ok () := by
  rw [validateGrammar, Dictionary.isEmpty]
  by_cases hstart : c.start = []
  · simp [hstart]
  by_cases hrules : c.rules.entries = []
  · simp [hstart, hrules]
  by_cases hiterations : c.iterations < 0
  · simp [hstart, hrules, hiterations]
  · simp only [List.isEmpty_iff, hstart, hrules, hiterations, if_false, forM_eq_ok_iff, ne_eq,
      not_false_eq_true, true_and]

theorem validateGrammar_eq_ok {c : GrammarConfig α} (h : c.validateGrammar = .ok ()) :
    ∀ e ∈ c.rules.entries, checkProductions e.1 e.2 = .ok () :=
  (validateGrammar_eq_ok_iff.mp h).2.2.2

/-- No symbol has weights whose sum is infinite. -/
def IsBounded (c : GrammarConfig Float) : Prop :=
  ∀ e ∈ c.rules.entries, ¬ Weighted.Overflows (e.2.map (·.weight))

instance (c : GrammarConfig Float) : Decidable c.IsBounded :=
  inferInstanceAs (Decidable (∀ e ∈ c.rules.entries, _))

open Binary64 in
/-- The sum of weights that pass their check is a number that is not negative and not zero. -/
theorem total_of_check {symbol : Char} {ps : List (Production Float)}
    (h : checkProductions symbol ps = .ok ()) :
    (∀ w ∈ ps.map (·.weight), (0.0 : Float) ≤ w) ∧
      (0.0 : Float) ≤ Weighted.total (ps.map (·.weight)) ∧
        ¬ (Weighted.total (ps.map (·.weight)) == 0.0) = true := by
  obtain ⟨hne, hgood, p, hp, hpositive⟩ := checkProductions_eq_ok_iff.mp h
  have hnonneg : ∀ w ∈ ps.map (·.weight), (0.0 : Float) ≤ w := by
    intro w hw
    obtain ⟨q, hq, rfl⟩ := List.mem_map.mp hw
    exact zero_le_of_not_lt (hgood q hq).1 (hgood q hq).2
  have hweight : p.weight ∈ ps.map (·.weight) := List.mem_map_of_mem hp
  refine ⟨hnonneg, ?_⟩
  generalize ps.map (·.weight) = ws at hnonneg hweight
  cases ws with
  | nil => cases hweight
  | cons w rest =>
      obtain ⟨hw, hrest⟩ := List.forall_mem_cons.mp hnonneg
      refine ⟨zero_le_foldl hw hrest, fun hzero => ?_⟩
      obtain ⟨hw0, hrest0⟩ := beq_zero_of_foldl hw hrest hzero
      rcases List.mem_cons.mp hweight with heq | hmem
      · exact hpositive (heq ▸ hw0)
      · exact hpositive (hrest0 _ hmem)

open Binary64 in
theorem exists_ofWeights_of_check {symbol : Char} {ps : List (Production Float)}
    (h : checkProductions symbol ps = .ok ())
    (hbounded : ¬ Weighted.Overflows (ps.map (·.weight))) :
    ∃ choice, Weighted.ofWeights (ps.map (·.weight)) = .ok choice := by
  obtain ⟨hnonneg, hpositive, hzero⟩ := total_of_check h
  have hne : ps ≠ [] := (checkProductions_eq_ok_iff.mp h).1
  refine Weighted.exists_ofWeights_eq_ok (by simpa using hne) hnonneg hzero ?_
  exact isFinite_of_zero_le hpositive hbounded

end GrammarConfig

end Roadworks
