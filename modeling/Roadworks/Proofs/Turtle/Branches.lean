import Mathlib.Data.List.Infix
import Roadworks.Proofs.Turtle.Memory
import Roadworks.Scalar.Binary64
/-! # Branches lead back

Between a push and the pop that matches it the turtle may do anything. If there was room for its
state, it comes back to that state with the memory that it had, so what follows is drawn as if there
were no branch. -/

namespace Roadworks

variable {α : Type}

/-- The segment with another number, larger by a shift. -/
def RoadSegment.renumbered (s : RoadSegment α) (shift : Nat) : RoadSegment α :=
  { s with id := s.id + shift }

namespace Interpreter

variable {i : Interpreter α}

/-! ## Balanced words -/

/-- A word with as many pushes as pops, no beginning of which has more pops than pushes. -/
structure IsBalanced (i : Interpreter α) (word : Word) : Prop where
  pops_le : ∀ u ∈ word.inits, u.countP (fun c => (i.op c).pops) ≤ u.countP fun c => (i.op c).pushes
  pops_eq : word.countP (fun c => (i.op c).pops) = word.countP fun c => (i.op c).pushes

/-- Pushes and pops change the open pushes above a base, as long as no pop goes below it. -/
theorem exists_openPushes_append {u w : Word} {above base : List Nat}
    (h : i.openPushes u = above ++ base)
    (hw : ∀ v ∈ w.inits, v.countP (fun c => (i.op c).pops) ≤
      above.length + v.countP fun c => (i.op c).pushes) :
    ∃ top, i.openPushes (u ++ w) = top ++ base ∧ top.length + w.countP (fun c => (i.op c).pops) =
      above.length + w.countP fun c => (i.op c).pushes := by
  induction w generalizing u above with
  | nil => exact ⟨above, by rw [List.append_nil, h], rfl⟩
  | cons c w ih =>
      -- One symbol moves over to the first word, and the bounds move with it.
      obtain ⟨above', hopen, hcount⟩ : ∃ above', i.openPushes (u ++ [c]) = above' ++ base ∧
          above'.length + [c].countP (fun c => (i.op c).pops) =
            above.length + [c].countP fun c => (i.op c).pushes := by
        have hfirst := hw [c] (by simp)
        rw [openPushes_concat, h]
        cases hc : i.op c with
        | push => exact ⟨u.length :: above, rfl, by simp [hc, TurtleOp.pushes, TurtleOp.pops]⟩
        | pop =>
            cases above with
            | nil => simp [hc, TurtleOp.pushes, TurtleOp.pops] at hfirst
            | cons p rest => exact ⟨rest, rfl, by simp [hc, TurtleOp.pushes, TurtleOp.pops]⟩
        | draw | move | turn _ | turnAround | setStyle _ | ignore =>
            exact ⟨above, rfl, by simp [hc, TurtleOp.pushes, TurtleOp.pops]⟩
      have hsplit (p : Char → Bool) (v : Word) :
          (c :: v).countP p = [c].countP p + v.countP p := by
        rw [← List.countP_append, List.singleton_append]
      obtain ⟨top, htop, hlength⟩ := ih hopen fun v hv => by
        have hmore := hw (c :: v) (by simpa using hv)
        rw [hsplit _ v, hsplit _ v] at hmore
        omega
      refine ⟨top, by rwa [List.append_assoc] at htop, ?_⟩
      rw [hsplit _ w, hsplit _ w]
      omega

theorem IsBalanced.openPushes_append {w : Word} (hw : i.IsBalanced w) (u : Word) :
    i.openPushes (u ++ w) = i.openPushes u := by
  have hnone : i.openPushes u = [] ++ i.openPushes u := rfl
  obtain ⟨top, hopen, hcount⟩ := exists_openPushes_append hnone fun v hv => by
    simpa using hw.pops_le v hv
  rw [hw.pops_eq, List.length_nil, Nat.add_right_cancel_iff] at hcount
  rw [hopen, List.eq_nil_of_length_eq_zero hcount, List.nil_append]

/-! ## Numbered strokes -/

/-- Strokes as segments, numbered from a first number on. -/
def segments (strokes : List (Stroke α)) (first : Nat) : List (RoadSegment α) :=
  (strokes.zipIdx first).map fun (s, id) => ⟨id, s.start, s.stop, s.heading, s.styleClass⟩

theorem segments_add (strokes : List (Stroke α)) (first shift : Nat) :
    segments strokes (first + shift) = (segments strokes first).map (·.renumbered shift) := by
  induction strokes generalizing first with
  | nil => rfl
  | cons s rest ih =>
      have hnext := ih (first + 1)
      rw [Nat.add_right_comm] at hnext
      exact congrArg (List.cons _) hnext

variable [Scalar α]

/-! ## Back to the state before a branch -/

/-- A branch that there is room for changes neither the turtle nor what it remembers. -/
theorem IsBalanced.walk_branch {u w : Word} {opening closing : Char} (hw : i.IsBalanced w)
    (hopening : i.op opening = .push) (hclosing : i.op closing = .pop)
    (hroom : (i.openPushes u).length < i.maxStackDepth) :
    i.walk i.begin (u ++ [opening] ++ w ++ [closing]) = i.walk i.begin u := by
  have hopen : i.openPushes (u ++ [opening] ++ w) = u.length :: i.openPushes u := by
    rw [hw.openPushes_append, openPushes_concat, hopening, TurtleOp.nest]
  obtain ⟨hstack, hdropped⟩ := i.remembers_walk (u ++ [opening] ++ w)
  obtain ⟨hstack', hdropped'⟩ := i.remembers_walk u
  have hzero : (i.openPushes u).length - i.maxStackDepth = 0 := by omega
  have hzero' : (i.openPushes u).length + 1 - i.maxStackDepth = 0 := by omega
  rw [hopen, List.length_cons, hzero'] at hstack hdropped
  rw [hzero] at hstack' hdropped'
  have hsaved : ((u.length :: i.openPushes u).map fun p =>
      (i.walk i.begin ((u ++ [opening] ++ w).take p)).turtle) =
        (i.walk i.begin u).turtle :: (i.walk i.begin u).stack := by
    rw [List.append_assoc, List.map_cons, List.take_left,
      map_turtle_take_append (List.Subset.refl _), hstack', List.drop_zero]
  rw [List.drop_zero, hsaved] at hstack
  rw [walk_append]
  change i.advance _ (i.op closing) = _
  rw [hclosing, advance, hdropped, if_neg (Nat.lt_irrefl 0), hstack, ← hdropped']

/-! ## What is drawn around a branch -/

/-- The segments of a word in two parts: those of the first, and those that the second adds. -/
theorem interpret_append (i : Interpreter α) (u v : Word) :
    i.interpret (u ++ v) = i.interpret u ++
      segments (i.strokes (i.walk i.begin u) v) (i.interpret u).length := by
  rw [interpret, strokes_append, List.zipIdx_append, List.map_append, Nat.zero_add,
    length_interpret, ← length_strokes i i.begin u]
  rfl

/-- A branch that there is room for adds its own segments and shifts the numbers of those that follow;
they are else the ones that would be drawn without the branch. -/
theorem interpret_branch {u w v : Word} {opening closing : Char} (hw : i.IsBalanced w)
    (hopening : i.op opening = .push) (hclosing : i.op closing = .pop)
    (hroom : (i.openPushes u).length < i.maxStackDepth) :
    ∃ inside outside, i.interpret (u ++ [opening] ++ w) = i.interpret u ++ inside ∧
      inside.length = w.countP (fun c => (i.op c).draws) ∧
      i.interpret (u ++ v) = i.interpret u ++ outside ∧
      i.interpret (u ++ [opening] ++ w ++ [closing] ++ v) =
        i.interpret u ++ inside ++ outside.map (·.renumbered inside.length) := by
  have hinside : (i.interpret (u ++ [opening] ++ w)).length =
      (i.interpret u).length + w.countP fun c => (i.op c).draws := by
    simp [length_interpret, hopening, TurtleOp.draws]
  have hbranch : i.interpret (u ++ [opening] ++ w ++ [closing]) =
      i.interpret (u ++ [opening] ++ w) := by
    rw [interpret_append _ _ [closing], strokes, hclosing]
    exact List.append_nil _
  obtain ⟨inside, hdrawn⟩ : ∃ inside, i.interpret (u ++ [opening] ++ w) =
      i.interpret u ++ inside := ⟨_, by rw [List.append_assoc, interpret_append]⟩
  have hcount : inside.length = w.countP fun c => (i.op c).draws := by
    rw [hdrawn, List.length_append] at hinside
    omega
  refine ⟨inside, _, hdrawn, hcount, interpret_append i u v, ?_⟩
  rw [interpret_append _ _ v, hbranch, hw.walk_branch hopening hclosing hroom, hdrawn,
    List.length_append, segments_add]

end Interpreter

/-- The standard turtle with room for two states. -/
def pocketed : Interpreter Float := ⟨Interpreter.standardOp, 0.5, 10.0, "street", 2⟩

/-- A branch off a branch, inside of which a push finds no room. -/
theorem interpret_branch_pocketed :
    ∃ inside outside,
      pocketed.interpret "F[F[[F]F".toList = pocketed.interpret "F[F".toList ++ inside ∧
      inside.length = 2 ∧
      pocketed.interpret "F[FF]F".toList = pocketed.interpret "F[F".toList ++ outside ∧
      pocketed.interpret "F[F[[F]F]F]F".toList =
        pocketed.interpret "F[F".toList ++ inside ++ outside.map (·.renumbered inside.length) := by
  have hw : pocketed.IsBalanced "[F]F".toList := ⟨by decide +kernel, by decide +kernel⟩
  have hopening : pocketed.op '[' = .push := rfl
  have hclosing : pocketed.op ']' = .pop := rfl
  have hroom : (pocketed.openPushes "F[F".toList).length < pocketed.maxStackDepth := by
    decide +kernel
  exact Interpreter.interpret_branch (v := "F]F".toList) hw hopening hclosing hroom

end Roadworks
