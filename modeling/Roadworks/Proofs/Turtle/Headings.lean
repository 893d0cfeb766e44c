import Roadworks.Proofs.Exact.Reals
import Roadworks.Proofs.Turtle.Paths
/-! # Headings within a turn

The remainder of an angle by the full turn is exact, so all that is rounded on the way to a heading
is the sum of a negative remainder and the turn. A rounding that keeps the order and leaves zero and
the turn as they are cannot leave the turn, but it can reach its end, where none begins again. -/

namespace Roadworks

/-- A rounding that keeps the order and leaves zero and the full turn as they are. -/
structure IsRounding (turn : ℝ) (round : ℝ → ℝ) : Prop where
  monotone : Monotone round
  round_zero : round 0 = 0
  round_turn : round turn = turn

/-- Finite numbers stand for reals and are compared as these. Remainders by the full turn are exact,
sums with the full turn are rounded, and the size of a turn is far from the largest number. -/
structure RoundsBy {α : Type} [Scalar α] (value : α → ℝ) (round : ℝ → ℝ) : Prop where
  isRounding : IsRounding (value Scalar.tau) round
  isFinite_zero : Scalar.isFinite (0.0 : α) = true
  isFinite_tau : Scalar.isFinite (Scalar.tau : α) = true
  value_zero : value 0.0 = 0
  tau_pos : 0 < value Scalar.tau
  lt_iff : ∀ x y : α, Scalar.isFinite x = true → Scalar.isFinite y = true →
    (x < y ↔ value x < value y)
  le_iff : ∀ x y : α, Scalar.isFinite x = true → Scalar.isFinite y = true →
    (x ≤ y ↔ value x ≤ value y)
  rem : ∀ x : α, Scalar.isFinite x = true → Scalar.isFinite (Scalar.rem x Scalar.tau) = true ∧
    IsRemainder (value x) (value Scalar.tau) (value (Scalar.rem x Scalar.tau))
  rem_eq_self : ∀ x : α, Scalar.isFinite x = true → |value x| < value Scalar.tau →
    Scalar.rem x Scalar.tau = x
  add_tau : ∀ x : α, Scalar.isFinite x = true → -value Scalar.tau < value x → value x < 0 →
    Scalar.isFinite (x + Scalar.tau) = true ∧
      value (x + Scalar.tau) = round (value x + value Scalar.tau)
  isFinite_add_pi : ∀ x : α, Scalar.isFinite x = true → 0 ≤ value x → value x < value Scalar.tau →
    Scalar.isFinite (x + Scalar.pi) = true

section

variable {α : Type} [Scalar α]

/-- The number is an angle from nothing up to the full turn, which is left out. -/
def IsHeading (x : α) : Prop := Scalar.isFinite x = true ∧ 0.0 ≤ x ∧ x < Scalar.tau

/-- An angle is brought into the turn, where it stays. It is moved by whole turns if nothing is
rounded. -/
structure IsWrapped (value : α → ℝ) (round : ℝ → ℝ) (x : α) : Prop where
  isHeading : IsHeading (normalizeAngle x)
  again : normalizeAngle (normalizeAngle x) = normalizeAngle x
  congruent : round = id → ∃ k : ℤ, value x = value (normalizeAngle x) + k * value Scalar.tau

/-- Every heading that the turtle has or remembers lies within the turn. -/
structure Walk.HasHeadings (w : Walk α) : Prop where
  turtle : IsHeading w.turtle.heading
  stack : ∀ t ∈ w.stack, IsHeading t.heading

/-- Turning by the operation does not leave the finite numbers. -/
def TurtleOp.TurnsFinitely (turnAngle : α) : TurtleOp α → Prop
  | .turn factor => ∀ h, IsHeading h → Scalar.isFinite (h + turnAngle * factor) = true
  | _ => True

namespace GrammarConfig

/-- Turns to the left and to the right do not leave the finite numbers. -/
def TurnsFinitely (c : GrammarConfig α) : Prop :=
  ∀ factor ∈ [(1.0 : α), -1.0], (TurtleOp.turn factor).TurnsFinitely (Scalar.radians c.turnAngle)

/-- After every word, the headings of the turtle, of the states that it remembers and of all
segments that it has drawn lie within the turn. -/
def KeepsHeadings (c : GrammarConfig α) : Prop :=
  ∀ word, ∃ i segments, Interpreter.ofConfig c = .ok i ∧ c.interpret word = .ok segments ∧
    (i.walk i.begin word).HasHeadings ∧ ∀ s ∈ segments, IsHeading s.heading

end GrammarConfig

namespace RoundsBy

variable {value : α → ℝ} {round : ℝ → ℝ} {x : α}

theorem isHeading_iff (h : RoundsBy value round) (hx : Scalar.isFinite x = true) :
    IsHeading x ↔ 0 ≤ value x ∧ value x < value Scalar.tau := by
  rw [IsHeading, h.le_iff _ _ h.isFinite_zero hx, h.lt_iff _ _ hx h.isFinite_tau, h.value_zero]
  exact and_iff_right hx

theorem isHeading_zero (h : RoundsBy value round) : IsHeading (0.0 : α) := by
  rw [h.isHeading_iff h.isFinite_zero, h.value_zero]
  exact ⟨le_rfl, h.tau_pos⟩

/-- What the last comparison sees: a finite number from zero to the turn. -/
theorem modulo_bounds (h : RoundsBy value round) (hx : Scalar.isFinite x = true) :
    Scalar.isFinite (Scalar.modulo x Scalar.tau) = true ∧
      0 ≤ value (Scalar.modulo x Scalar.tau) ∧
      value (Scalar.modulo x Scalar.tau) ≤ value Scalar.tau := by
  obtain ⟨hrem, hexact⟩ := h.rem x hx
  obtain ⟨hlow, hhigh⟩ := hexact.mem_Ioo h.tau_pos
  rw [Scalar.modulo]
  split
  · next hneg =>
      rw [h.lt_iff _ _ hrem h.isFinite_zero, h.value_zero] at hneg
      obtain ⟨hfinite, hvalue⟩ := h.add_tau _ hrem hlow hneg
      have hrounding := h.isRounding
      refine ⟨hfinite, ?_, ?_⟩
      · rw [hvalue, ← hrounding.round_zero]
        exact hrounding.monotone (by linarith)
      · rw [hvalue]
        exact (hrounding.monotone (by linarith)).trans_eq hrounding.round_turn
  · next hnonneg =>
      rw [h.lt_iff _ _ hrem h.isFinite_zero, h.value_zero, not_lt] at hnonneg
      exact ⟨hrem, hnonneg, hhigh.le⟩

theorem isHeading_normalizeAngle (h : RoundsBy value round) (hx : Scalar.isFinite x = true) :
    IsHeading (normalizeAngle x) := by
  obtain ⟨hfinite, hlow, hhigh⟩ := h.modulo_bounds hx
  rw [normalizeAngle]
  split
  · exact h.isHeading_zero
  · next hlt =>
      rw [h.le_iff _ _ h.isFinite_tau hfinite, not_le] at hlt
      exact (h.isHeading_iff hfinite).mpr ⟨hlow, hlt⟩

/-- A heading stays as it is. -/
theorem normalizeAngle_of_isHeading (h : RoundsBy value round) (hx : IsHeading x) :
    normalizeAngle x = x := by
  obtain ⟨hlow, hhigh⟩ := (h.isHeading_iff hx.1).mp hx
  have hrem : Scalar.rem x Scalar.tau = x := h.rem_eq_self x hx.1 (by rwa [abs_of_nonneg hlow])
  have hmodulo : Scalar.modulo x Scalar.tau = x := by
    rw [Scalar.modulo, hrem, if_neg]
    rw [h.lt_iff _ _ hx.1 h.isFinite_zero, h.value_zero]
    exact hlow.not_gt
  rw [normalizeAngle, hmodulo]
  refine if_neg ?_
  rw [h.le_iff _ _ h.isFinite_tau hx.1]
  exact hhigh.not_ge

/-- Where sums are exact, an angle is moved by whole turns. -/
theorem exists_eq_add_mul_tau (h : RoundsBy value id) (hx : Scalar.isFinite x = true) :
    ∃ k : ℤ, value x = value (normalizeAngle x) + k * value Scalar.tau := by
  obtain ⟨hrem, hexact⟩ := h.rem x hx
  obtain ⟨k, hk⟩ := hexact.exists_eq
  obtain ⟨hlow, hhigh⟩ := hexact.mem_Ioo h.tau_pos
  have hbelow : value (Scalar.modulo x Scalar.tau) < value Scalar.tau ∧
      ∃ k : ℤ, value x = value (Scalar.modulo x Scalar.tau) + k * value Scalar.tau := by
    rw [Scalar.modulo]
    split
    · next hneg =>
        rw [h.lt_iff _ _ hrem h.isFinite_zero, h.value_zero] at hneg
        rw [(h.add_tau _ hrem hlow hneg).2, id]
        refine ⟨by linarith, k - 1, ?_⟩
        push_cast
        linarith
    · exact ⟨hhigh, k, hk⟩
  obtain ⟨hlt, hturns⟩ := hbelow
  rw [normalizeAngle, if_neg]
  · exact hturns
  · rw [h.le_iff _ _ h.isFinite_tau (h.modulo_bounds hx).1]
    exact hlt.not_ge

theorem isWrapped (h : RoundsBy value round) (hx : Scalar.isFinite x = true) :
    IsWrapped value round x := by
  constructor
  case isHeading => exact h.isHeading_normalizeAngle hx
  case again => exact h.normalizeAngle_of_isHeading (h.isHeading_normalizeAngle hx)
  case congruent =>
    rintro rfl
    exact h.exists_eq_add_mul_tau hx

/-! ## The turtle -/

variable {i : Interpreter α} {w : Walk α}

theorem hasHeadings_advance (h : RoundsBy value round) (hw : w.HasHeadings) {op : TurtleOp α}
    (hop : op.TurnsFinitely i.turnAngle) : (i.advance w op).HasHeadings := by
  cases op with
  | draw => exact ⟨hw.turtle, hw.stack⟩
  | move => exact ⟨hw.turtle, hw.stack⟩
  | turn factor => exact ⟨h.isHeading_normalizeAngle (hop _ hw.turtle), hw.stack⟩
  | turnAround =>
      obtain ⟨hlow, hhigh⟩ := (h.isHeading_iff hw.turtle.1).mp hw.turtle
      have hsum := h.isFinite_add_pi _ hw.turtle.1 hlow hhigh
      exact ⟨h.isHeading_normalizeAngle hsum, hw.stack⟩
  | push =>
      rw [Interpreter.advance]
      split
      · exact ⟨hw.turtle, List.forall_mem_cons.mpr ⟨hw.turtle, hw.stack⟩⟩
      · exact ⟨hw.turtle, hw.stack⟩
  | pop =>
      rw [Interpreter.advance]
      split
      · exact ⟨hw.turtle, hw.stack⟩
      · split
        · exact hw
        · next t rest hstack =>
            obtain ⟨hfirst, hrest⟩ := List.forall_mem_cons.mp (hstack ▸ hw.stack)
            exact ⟨hfirst, hrest⟩
  | setStyle style => exact ⟨hw.turtle, hw.stack⟩
  | ignore => exact hw

variable (hops : ∀ a, (i.op a).TurnsFinitely i.turnAngle)

include hops in
theorem hasHeadings_walk (h : RoundsBy value round) (hw : w.HasHeadings) (word : Word) :
    (i.walk w word).HasHeadings := by
  induction word generalizing w with
  | nil => exact hw
  | cons a word ih => exact ih (h.hasHeadings_advance hw (hops a))

include hops in
theorem isHeading_of_mem_strokes (h : RoundsBy value round) (hw : w.HasHeadings) (word : Word) :
    ∀ s ∈ i.strokes w word, IsHeading s.heading := by
  induction word generalizing w with
  | nil => simp [Interpreter.strokes]
  | cons a word ih =>
      have hrest := ih (h.hasHeadings_advance hw (hops a))
      rw [Interpreter.strokes]
      cases hop : i.op a with
      | draw =>
          rw [hop] at hrest
          exact List.forall_mem_cons.mpr ⟨hw.turtle, hrest⟩
      | _ =>
          rw [hop] at hrest
          exact hrest

theorem hasHeadings_begin (h : RoundsBy value round) (i : Interpreter α) : i.begin.HasHeadings :=
  ⟨h.isHeading_zero, by simp [Interpreter.begin]⟩

/-- The operations of a configuration turn to the left, to the right, and around. -/
theorem turnsFinitely_op {c : GrammarConfig α} (hc : c.TurnsFinitely)
    (hi : Interpreter.ofConfig c = .ok i) (a : Char) : (i.op a).TurnsFinitely i.turnAngle := by
  rw [Interpreter.turnAngle_of_ofConfig hi, Interpreter.op_of_ofConfig hi a]
  cases c.styleSymbols.get? a with
  | some style => trivial
  | none =>
      dsimp only
      unfold Interpreter.standardOp
      split
      case h_4 => exact hc 1.0 (by simp)
      case h_5 => exact hc (-1.0) (by simp)
      all_goals trivial

theorem keepsHeadings (h : RoundsBy value round) {c : GrammarConfig α}
    (hvalid : c.validateTurtle = .ok ()) (hc : c.TurnsFinitely) : c.KeepsHeadings := by
  intro word
  obtain ⟨i, hi⟩ : ∃ i, Interpreter.ofConfig c = .ok i :=
    ⟨_, Interpreter.ofConfig_eq_ok_iff.mpr ⟨hvalid, rfl⟩⟩
  have hops := turnsFinitely_op hc hi
  refine ⟨i, i.interpret word, hi, ?_, h.hasHeadings_walk hops (h.hasHeadings_begin i) word, ?_⟩
  · rw [GrammarConfig.interpret, hi]
    rfl
  · intro s hs
    rw [Interpreter.interpret] at hs
    obtain ⟨⟨stroke, id⟩, hstroke, rfl⟩ := List.mem_map.mp hs
    exact h.isHeading_of_mem_strokes hops (h.hasHeadings_begin i) word stroke
      (List.fst_mem_of_mem_zipIdx hstroke)

end RoundsBy

end

end Roadworks
