import Roadworks.Proofs.Exact.Turning
import Roadworks.Proofs.Turtle.Paths
/-! # Where a path leads

Over the reals the turtle needs no memory to know where it is: its heading is the sum of all turns
along the active path, and its position the sum of all steps along it. -/

namespace Roadworks

/-! ## Turns and steps -/

/-- How far an operation turns the turtle to the left, where `angle` is that of one turn. -/
noncomputable def TurtleOp.turned (angle : ℝ) : TurtleOp ℝ → ℝ
  | .turn factor => angle * factor
  | .turnAround => Real.pi
  | _ => 0

/-- The operation takes a step, whether it is drawn or not. -/
def TurtleOp.advances {α : Type} : TurtleOp α → Bool
  | .draw | .move => true
  | _ => false

namespace Vec

theorem ofHeading_normalizeAngle (θ : ℝ) : ofHeading (normalizeAngle θ) = ofHeading θ := by
  ext
  · change Real.cos (normalizeAngle θ) = Real.cos θ
    rw [← Real.Angle.cos_coe, coe_normalizeAngle, Real.Angle.cos_coe]
  · change Real.sin (normalizeAngle θ) = Real.sin θ
    rw [← Real.Angle.sin_coe, coe_normalizeAngle, Real.Angle.sin_coe]

theorem norm_ofHeading (θ : ℝ) : (ofHeading θ : Vec ℝ).norm = 1 := by
  rw [norm_eq]
  change √(Real.cos θ ^ 2 + Real.sin θ ^ 2) = 1
  rw [Real.cos_sq_add_sin_sq, Real.sqrt_one]

end Vec

/-- Turns may be added before or after full turns are taken out. -/
theorem normalizeAngle_normalizeAngle_add (θ φ : ℝ) :
    normalizeAngle (normalizeAngle θ + φ) = normalizeAngle (θ + φ) := by
  rw [normalizeAngle_eq_iff, Real.Angle.coe_add, Real.Angle.coe_add, coe_normalizeAngle]

theorem normalizeAngle_zero : normalizeAngle (0 : ℝ) = 0 := by
  rw [normalizeAngle_eq, toIcoMod_apply_left]

/-- An angle within the turn is a number of full turns away from the one that it was made of. -/
theorem exists_normalizeAngle_eq (θ : ℝ) : ∃ n : ℤ, normalizeAngle θ = θ + n * (2 * Real.pi) := by
  obtain ⟨n, hn⟩ := Real.Angle.angle_eq_iff_two_pi_dvd_sub.mp (coe_normalizeAngle θ)
  exact ⟨n, by linarith⟩

namespace Interpreter

variable (i : Interpreter ℝ)

/-- The sum of all turns along a path. -/
noncomputable def bearing (path : Word) : ℝ := (path.map fun c => (i.op c).turned i.turnAngle).sum

/-- The steps along a path, each in the direction to which the turns before it lead. -/
noncomputable def steps (path : Word) : List (Vec ℝ) :=
  path.zipIdx.filterMap fun (c, k) =>
    if (i.op c).advances then some (Vec.ofHeading (i.bearing (path.take k)) * i.stepLength)
    else none

theorem bearing_concat (path : Word) (c : Char) :
    i.bearing (path ++ [c]) = i.bearing path + (i.op c).turned i.turnAngle := by
  simp [bearing]

theorem steps_concat (path : Word) (c : Char) :
    i.steps (path ++ [c]) = i.steps path ++
      if (i.op c).advances then [Vec.ofHeading (i.bearing path) * i.stepLength] else [] := by
  have hbefore : (path.zipIdx.filterMap fun (d, k) =>
      if (i.op d).advances then
        some (Vec.ofHeading (i.bearing ((path ++ [c]).take k)) * i.stepLength)
      else none) = i.steps path := by
    refine List.filterMap_congr fun ⟨d, k⟩ he => ?_
    have hk : k ≤ path.length := (List.snd_lt_of_mem_zipIdx he).le
    dsimp only
    rw [List.take_append_of_le_length hk]
  rw [steps, List.zipIdx_append, List.filterMap_append, hbefore, Nat.zero_add,
    List.zipIdx_singleton]
  cases h : (i.op c).advances <;> simp [h]

/-- The heading at the end of a path. -/
theorem heading_follow (path : Word) :
    (i.follow path).heading = normalizeAngle (i.bearing path) := by
  induction path using List.reverseRecOn with
  | nil =>
      change (0.0 : ℝ) = normalizeAngle 0
      rw [decimal_zero, normalizeAngle_zero]
  | append_singleton path c ih =>
      rw [follow_concat, bearing_concat]
      cases hc : i.op c with
      | turn factor =>
          rw [steer, TurtleState.turn, ih, normalizeAngle_normalizeAngle_add]
          rfl
      | turnAround =>
          rw [steer, TurtleState.turn, ih, normalizeAngle_normalizeAngle_add]
          rfl
      | draw | move | push | pop | setStyle _ | ignore =>
          have hstraight : (i.op c).turned i.turnAngle = 0 := by rw [hc]; rfl
          rw [hc] at hstraight
          rw [hstraight, add_zero, ← ih]
          rfl

/-- The direction at the end of a path. -/
theorem forward_follow (path : Word) :
    (i.follow path).forward = Vec.ofHeading (i.bearing path) := by
  rw [TurtleState.forward, heading_follow, Vec.ofHeading_normalizeAngle]

/-- The position at the end of a path. -/
theorem position_follow (path : Word) :
    (i.follow path).position = .zero + (i.steps path).sum := by
  induction path using List.reverseRecOn with
  | nil => exact (add_zero (0 : Vec ℝ)).symm
  | append_singleton path c ih =>
      rw [follow_concat, steps_concat]
      cases hc : i.op c with
      | draw | move =>
          rw [steer, TurtleState.step, forward_follow, ih, TurtleOp.advances, if_pos rfl,
            List.sum_append, List.sum_singleton, ← add_assoc]
      | turn _ | turnAround | push | pop | setStyle _ | ignore =>
          rw [if_neg (by simp [TurtleOp.advances]), List.append_nil, ← ih]
          rfl

end Interpreter

/-! ## The turtle of a configuration -/

/-- The symbols that every turtle knows. -/
def standardSymbols : List Char := ['F', 'G', 'f', '+', '-', '|', '[', ']']

/-- No symbol that every turtle knows is taken for a style. -/
def GrammarConfig.KeepsStandard {α : Type} (c : GrammarConfig α) : Prop :=
  ∀ a ∈ standardSymbols, c.styleSymbols.get? a = none

namespace Interpreter

variable {c : GrammarConfig ℝ} {i : Interpreter ℝ}

theorem turned_standardOp (a : Char) (angle : ℝ) :
    (standardOp a).turned angle =
      angle * (([a].count '+' : ℝ) - [a].count '-') + Real.pi * [a].count '|' := by
  unfold standardOp
  split <;> simp_all [TurtleOp.turned, decimal_one]

theorem draws_standardOp (a : Char) :
    (standardOp a : TurtleOp ℝ).draws = (a == 'F' || a == 'G') := by
  unfold standardOp
  split <;> simp_all [TurtleOp.draws]

/-- A symbol that sets a style is none of those that every turtle knows. -/
theorem op_eq_standardOp_or (hi : ofConfig c = .ok i) (h : c.KeepsStandard) (a : Char) :
    i.op a = standardOp a ∨ a ∉ standardSymbols ∧ ∃ style, i.op a = .setStyle style := by
  rw [op_of_ofConfig hi]
  cases hstyle : c.styleSymbols.get? a with
  | none => exact .inl rfl
  | some style =>
      refine .inr ⟨fun ha => ?_, style, rfl⟩
      rw [h a ha] at hstyle
      contradiction

/-- The turns along a path are counted by the symbols that turn. -/
theorem bearing_eq (hi : ofConfig c = .ok i) (h : c.KeepsStandard) (path : Word) :
    i.bearing path = c.turnAngle * (Real.pi / 180) * ((path.count '+' : ℝ) - path.count '-') +
      Real.pi * path.count '|' := by
  have hangle : i.turnAngle = c.turnAngle * (Real.pi / 180) := by
    rw [turnAngle_of_ofConfig hi, Scalar.radians]
    norm_num [Scalar.pi]
  rw [← hangle]
  induction path with
  | nil => simp [bearing]
  | cons a path ih =>
      have hsplit (b : Char) : ((a :: path).count b : ℝ) = [a].count b + path.count b := by
        rw [← List.singleton_append, List.count_append, Nat.cast_add]
      have hsymbol : (i.op a).turned i.turnAngle =
          i.turnAngle * (([a].count '+' : ℝ) - [a].count '-') + Real.pi * [a].count '|' := by
        rcases op_eq_standardOp_or hi h a with hop | ⟨ha, style, hop⟩
        · rw [hop, turned_standardOp]
        · have hnone (b : Char) (hb : b ∈ standardSymbols) : [a].count b = 0 :=
            List.count_eq_zero.mpr fun hmem => ha (List.mem_singleton.mp hmem ▸ hb)
          simp [hop, TurtleOp.turned, hnone '+' (by decide), hnone '-' (by decide),
            hnone '|' (by decide)]
      rw [bearing, List.map_cons, List.sum_cons, ← bearing, ih, hsymbol, hsplit, hsplit, hsplit]
      ring

/-- The symbols that draw are the two that every turtle knows. -/
theorem countP_draws_eq (hi : ofConfig c = .ok i) (h : c.KeepsStandard) (word : Word) :
    (word.countP fun a => (i.op a).draws) = word.countP fun a => a == 'F' || a == 'G' := by
  refine List.countP_congr fun a _ => ?_
  rcases op_eq_standardOp_or hi h a with hop | ⟨ha, style, hop⟩
  · rw [hop, draws_standardOp]
  · have hF : a ≠ 'F' := fun heq => ha (heq ▸ by decide)
    have hG : a ≠ 'G' := fun heq => ha (heq ▸ by decide)
    simp [hop, TurtleOp.draws, hF, hG]

end Interpreter

/-! ## Segments along their paths -/

/-- A segment that a turtle draws at the end of a path. It begins at the origin moved by the steps
along the path, in the direction to which the turns along it lead. -/
structure RoadSegment.Continues (s : RoadSegment ℝ) (c : GrammarConfig ℝ) (i : Interpreter ℝ)
    (path : Word) : Prop where
  length_eq : s.length = c.stepLength
  stop_eq : s.stop = s.start + (⟨Real.cos s.heading, Real.sin s.heading⟩ : Vec ℝ) * c.stepLength
  heading_nonneg : 0 ≤ s.heading
  heading_lt : s.heading < 2 * Real.pi
  heading_eq : ∃ n : ℤ, s.heading = i.bearing path + n * (2 * Real.pi)
  heading_count : c.KeepsStandard → ∃ n : ℤ, s.heading =
    c.turnAngle * (Real.pi / 180) * ((path.count '+' : ℝ) - path.count '-') +
      Real.pi * path.count '|' + n * (2 * Real.pi)
  start_eq : s.start = .zero + (i.steps path).sum

theorem GrammarConfig.stepLength_pos {c : GrammarConfig ℝ} (h : c.validateTurtle = .ok ()) :
    0 < c.stepLength := by
  rw [validateTurtle] at h
  split at h
  · contradiction
  · next hsound => exact not_le.mp fun hle => hsound (.inr (hle.trans_eq decimal_zero.symm))

/-- A step from the end of a path continues it. -/
theorem Interpreter.continues_of_ofConfig {c : GrammarConfig ℝ} {i : Interpreter ℝ}
    (hi : ofConfig c = .ok i) (path : Word) (n : Nat) (style : String) :
    (⟨n, (i.follow path).position, ((i.follow path).step i.stepLength).position,
      (i.follow path).heading, style⟩ : RoadSegment ℝ).Continues c i path := by
  have hstep := stepLength_of_ofConfig hi
  have hpositive := GrammarConfig.stepLength_pos (ofConfig_eq_ok_iff.mp hi).1
  have hheading := i.heading_follow path
  obtain ⟨turns, hturns⟩ := exists_normalizeAngle_eq (i.bearing path)
  refine ⟨?_, ?_, ?_, ?_, ⟨turns, ?_⟩, fun hkeeps => ⟨turns, ?_⟩, i.position_follow path⟩
  · change (i.follow path).position.dist ((i.follow path).position +
      (i.follow path).forward * i.stepLength) = c.stepLength
    rw [Vec.dist, add_sub_cancel_left, Vec.norm_mul, TurtleState.forward, Vec.norm_ofHeading, hstep,
      one_mul, abs_of_pos hpositive]
  · rw [← hstep]
    rfl
  · exact hheading ▸ normalizeAngle_nonneg _
  · exact hheading ▸ normalizeAngle_lt _
  · exact hheading.trans hturns
  · rw [← bearing_eq hi hkeeps]
    exact hheading.trans hturns

open Interpreter in
/-- Every segment is one step from the end of its active path, which is made of the symbols before
the one that draws it. -/
theorem GrammarConfig.interpret_continues (c : GrammarConfig ℝ) (hvalid : c.validateTurtle = .ok ())
    (word : Word) :
    ∃ i segments, Interpreter.ofConfig c = .ok i ∧ c.interpret word = .ok segments ∧
      segments.length = (word.countP fun a => (i.op a).draws) ∧
      (c.KeepsStandard → segments.length = word.countP fun a => a == 'F' || a == 'G') ∧
      ∀ n s, segments[n]? = some s → s.id = n ∧ ∃ u a v, word = u ++ a :: v ∧ i.op a = .draw ∧
        (u.countP fun a => (i.op a).draws) = n ∧ s.Continues c i (i.activePath u) := by
  obtain ⟨i, hi⟩ : ∃ i, Interpreter.ofConfig c = .ok i := ⟨_, ofConfig_eq_ok_iff.mpr ⟨hvalid, rfl⟩⟩
  refine ⟨i, i.interpret word, hi, ?_, i.length_interpret word, fun hkeeps => ?_, ?_⟩
  · rw [GrammarConfig.interpret, hi]
    rfl
  · rw [length_interpret, countP_draws_eq hi hkeeps]
  · intro n s hs
    obtain ⟨u, a, v, hword, hdraw, hcount, rfl⟩ := exists_of_getElem?_interpret hs
    exact ⟨rfl, u, a, v, hword, hdraw, hcount, continues_of_ofConfig hi _ _ _⟩

/-- Steps of ten, turns of a right angle, room for one state, and a symbol that sets a style. -/
noncomputable def wanderer : GrammarConfig ℝ :=
  { GrammarConfig.default.withStyleSymbol 'H' "highway" with maxStackDepth := 1 }

theorem stepLength_wanderer : wanderer.stepLength = 10 := by
  change (10.0 : ℝ) = 10
  norm_num

theorem turnAngle_wanderer : wanderer.turnAngle = 90 := by
  change (90.0 : ℝ) = 90
  norm_num

theorem validateTurtle_wanderer : wanderer.validateTurtle = .ok () := by
  have hstep : ¬ ((!Scalar.isFinite wanderer.stepLength) = true ∨ wanderer.stepLength ≤ 0.0) := by
    rw [stepLength_wanderer]
    norm_num [Scalar.isFinite]
  rw [GrammarConfig.validateTurtle, if_neg hstep]
  rfl

theorem keepsStandard_wanderer : wanderer.KeepsStandard := by
  intro a ha
  have hne : a ≠ 'H' := by
    rintro rfl
    exact absurd ha (by decide)
  exact (Dictionary.get?_insert _ _ _ _).trans (if_neg (by simpa using hne))

/-- A quarter turn to the right of the first axis. -/
theorem eq_three_quarters {h : ℝ} {n : ℤ} (hlow : 0 ≤ h) (hhigh : h < 2 * Real.pi)
    (hn : h = -(Real.pi / 2) + n * (2 * Real.pi)) : h = 3 / 2 * Real.pi := by
  have hpi := Real.pi_pos
  have hpos : (0 : ℝ) < n := by nlinarith
  have hlt : (n : ℝ) < 2 := by nlinarith
  have hone : n = 1 := by
    have hpos' : 0 < n := by exact_mod_cast hpos
    have hlt' : n < 2 := by exact_mod_cast hlt
    omega
  rw [hn, hone]
  push_cast
  ring

/-- One step along the first axis, a style and a turn. -/
theorem sum_steps_wanderer {i : Interpreter ℝ} (hi : Interpreter.ofConfig wanderer = .ok i) :
    (i.steps ['F', 'H', '-']).sum = ⟨10, 0⟩ := by
  have hdrawn : (i.op 'F').advances = true := by rw [Interpreter.op_of_ofConfig hi]; rfl
  have hstyle : (i.op 'H').advances = false := by rw [Interpreter.op_of_ofConfig hi]; rfl
  have hturn : (i.op '-').advances = false := by rw [Interpreter.op_of_ofConfig hi]; rfl
  have hstraight : i.bearing [] = 0 := List.sum_nil
  simp only [Interpreter.steps, List.zipIdx_cons, List.zipIdx_nil, List.filterMap_cons, hdrawn,
    hstyle, hturn, List.take_zero, hstraight, if_true, Bool.false_eq_true, if_false,
    List.filterMap_nil, List.sum_singleton, Interpreter.stepLength_of_ofConfig hi,
    stepLength_wanderer]
  ext
  · exact (congrArg (· * (10 : ℝ)) Real.cos_zero).trans (one_mul _)
  · exact (congrArg (· * (10 : ℝ)) Real.sin_zero).trans (zero_mul _)

/-- Only the symbols before the last one hold four roads and are followed by another. -/
theorem eq_of_split_wanderer {u v : Word} {a : Char} (hword : "]F[+F[|F]F]H-F".toList = u ++ a :: v)
    (hcount : (u.countP fun a => a == 'F' || a == 'G') = 4)
    (ha : ([a].countP fun a => a == 'F' || a == 'G') = 1) : u = "]F[+F[|F]F]H-".toList := by
  have hplace : ∀ m < 14, (("]F[+F[|F]F]H-F".toList.take m).countP fun a =>
      a == 'F' || a == 'G') = 4 → ((("]F[+F[|F]F]H-F".toList.drop m).take 1).countP fun a =>
      a == 'F' || a == 'G') = 1 → m = 13 := by decide +kernel
  have hlength : u.length + (v.length + 1) = 14 := by
    simpa using (congrArg List.length hword).symm
  have hm := hplace u.length (by omega) (by rw [hword, List.take_left, hcount])
    (by rw [hword, List.drop_left, List.take_succ_cons, List.take_zero, ha])
  have htake := congrArg (List.take u.length) hword
  rw [List.take_left, hm] at htake
  exact htake.symm

/-- The last road after a pop with nothing to match, a branch that was closed again, and a push
and a pop within it for which there was no room: it starts at the end of the first road and leads
down. -/
theorem interpret_continues_wanderer :
    wanderer.validateTurtle = .ok () ∧ ∃ segments s,
      wanderer.interpret "]F[+F[|F]F]H-F".toList = .ok segments ∧ segments.length = 5 ∧
      segments[4]? = some s ∧ s.length = 10 ∧ s.start = ⟨10, 0⟩ ∧ s.heading = 3 / 2 * Real.pi := by
  obtain ⟨i, segments, hi, hsegments, _, hlength, hall⟩ :=
    wanderer.interpret_continues validateTurtle_wanderer "]F[+F[|F]F]H-F".toList
  have hfive : segments.length = 5 := (hlength keepsStandard_wanderer).trans (by decide +kernel)
  have hs := List.getElem?_eq_getElem (l := segments) (i := 4) (by omega)
  obtain ⟨_, u, a, v, hword, hdraw, hcount, hcontinues⟩ := hall 4 _ hs
  have ha : ([a].countP fun a => (i.op a).draws) = 1 := by simp [hdraw, TurtleOp.draws]
  rw [Interpreter.countP_draws_eq hi keepsStandard_wanderer] at hcount ha
  have hpath : i.activePath u = ['F', 'H', '-'] := by
    obtain ⟨_, rfl⟩ := Interpreter.ofConfig_eq_ok_iff.mp hi
    rw [eq_of_split_wanderer hword hcount ha]
    decide +kernel
  rw [hpath] at hcontinues
  obtain ⟨n, hn⟩ := hcontinues.heading_count keepsStandard_wanderer
  have hturns : segments[4].heading = -(Real.pi / 2) + n * (2 * Real.pi) := by
    have hleft : ['F', 'H', '-'].count '+' = 0 := rfl
    have hright : ['F', 'H', '-'].count '-' = 1 := rfl
    have haround : ['F', 'H', '-'].count '|' = 0 := rfl
    rw [hn, hleft, hright, haround, turnAngle_wanderer]
    push_cast
    ring
  exact ⟨validateTurtle_wanderer, segments, segments[4], hsegments, hfive, hs,
    hcontinues.length_eq.trans stepLength_wanderer,
    hcontinues.start_eq.trans ((zero_add _).trans (sum_steps_wanderer hi)),
    eq_three_quarters hcontinues.heading_nonneg hcontinues.heading_lt hturns⟩

end Roadworks
