import Mathlib.Data.List.Basic
import Roadworks.Turtle
/-! # Styles do not steer the turtle

A style is written onto strokes and nothing else. Once it is wiped off everything, a symbol that
sets a style does as much as one without a meaning. -/

namespace Roadworks

variable {α : Type}

/-! ## Without styles -/

/-- The state with its style wiped off. -/
def TurtleState.unstyled (t : TurtleState α) : TurtleState α := { t with styleClass := "" }

/-- The walk with all styles wiped off, also those that it remembers. -/
def Walk.unstyled (w : Walk α) : Walk α :=
  { w with turtle := w.turtle.unstyled, stack := w.stack.map TurtleState.unstyled }

def Stroke.unstyled (s : Stroke α) : Stroke α := { s with styleClass := "" }

def RoadSegment.unstyled (s : RoadSegment α) : RoadSegment α := { s with styleClass := "" }

/-- The operation sets a style. -/
def TurtleOp.setsStyle : TurtleOp α → Bool
  | .setStyle _ => true
  | _ => false

/-- What an operation does beside setting a style. -/
def TurtleOp.unstyled : TurtleOp α → TurtleOp α
  | .setStyle _ => .ignore
  | op => op

theorem TurtleOp.unstyled_of_setsStyle {op : TurtleOp α} (h : op.setsStyle = true) :
    op.unstyled = .ignore := by
  cases op <;> first | rfl | cases h

namespace Interpreter

/-- The interpreter that knows no styles. -/
def unstyled (i : Interpreter α) : Interpreter α :=
  { i with op := fun c => (i.op c).unstyled, defaultStyle := "" }

theorem withOp_unstyled (i : Interpreter α) (c : Char) (style : String) :
    (i.withOp c (.setStyle style)).unstyled = i.unstyled.withOp c .ignore := by
  unfold withOp unstyled
  congr 1
  funext d
  by_cases h : d = c
  · simp [h, TurtleOp.unstyled]
  · simp [h]

/-- Of the symbols that set a style, it only matters which ones they are. -/
theorem foldl_withOp_unstyled (i : Interpreter α) (entries : List (Char × String)) :
    (entries.foldl (fun i (c, style) => i.withOp c (.setStyle style)) i).unstyled =
      (entries.map Prod.fst).foldl (fun i c => i.withOp c .ignore) i.unstyled := by
  induction entries generalizing i with
  | nil => rfl
  | cons e entries ih => rw [List.foldl_cons, ih, withOp_unstyled, List.map_cons, List.foldl_cons]

variable [Scalar α]

/-! ## Words -/

theorem advance_unstyled (i : Interpreter α) (w : Walk α) (op : TurtleOp α) :
    i.unstyled.advance w.unstyled op.unstyled = (i.advance w op).unstyled := by
  cases op with
  | draw => rfl
  | move => rfl
  | turn factor => rfl
  | turnAround => rfl
  | push =>
      have hroom : w.unstyled.stack.length = w.stack.length := List.length_map _
      simp only [TurtleOp.unstyled, advance, unstyled, hroom]
      split <;> rfl
  | pop =>
      -- A state that was wiped off when it was pushed comes back as if it were wiped off now.
      cases w with
      | mk turtle stack dropped =>
          simp only [TurtleOp.unstyled, advance, Walk.unstyled]
          by_cases h : 0 < dropped
          · simp [h]
          · cases stack <;> simp [h]
  | setStyle style => rfl
  | ignore => rfl

theorem stroke?_unstyled (i : Interpreter α) (w : Walk α) (op : TurtleOp α) :
    i.unstyled.stroke? w.unstyled op.unstyled = (i.stroke? w op).map Stroke.unstyled := by
  cases op <;> rfl

theorem strokes_unstyled (i : Interpreter α) (w : Walk α) (word : Word) :
    i.unstyled.strokes w.unstyled word = (i.strokes w word).map Stroke.unstyled := by
  induction word generalizing w with
  | nil => rfl
  | cons c word ih =>
      have hop : i.unstyled.op c = (i.op c).unstyled := rfl
      rw [strokes, strokes, hop, stroke?_unstyled, advance_unstyled, ih]
      cases i.stroke? w (i.op c) <;> rfl

/-- Without styles, the same segments are drawn without styles. -/
theorem interpret_unstyled (i : Interpreter α) (word : Word) :
    i.unstyled.interpret word = (i.interpret word).map RoadSegment.unstyled := by
  have hbegin : i.unstyled.begin = i.begin.unstyled := rfl
  rw [interpret, hbegin, strokes_unstyled, interpret, List.zipIdx_map, List.map_map, List.map_map]
  rfl

/-! ## Symbols that do nothing -/

/-- Symbols that are passed over can be left out. -/
theorem strokes_filter {i : Interpreter α} {p : Char → Bool} {word : Word}
    (h : ∀ c ∈ word, p c = false → i.op c = .ignore) (w : Walk α) :
    i.strokes w (word.filter p) = i.strokes w word := by
  induction word generalizing w with
  | nil => rfl
  | cons c word ih =>
      obtain ⟨hc, hword⟩ := List.forall_mem_cons.mp h
      cases hp : p c with
      | true => rw [List.filter_cons_of_pos hp, strokes, strokes, ih hword]
      | false =>
          rw [List.filter_cons_of_neg (by simp [hp]), strokes, hc hp, ih hword]
          rfl

/-- A word draws the same without the symbols that set a style, up to the styles of what it
draws. -/
theorem interpret_filter_setsStyle (i : Interpreter α) (word : Word) :
    (i.interpret (word.filter fun c => !(i.op c).setsStyle)).map RoadSegment.unstyled =
      (i.interpret word).map RoadSegment.unstyled := by
  rw [← interpret_unstyled, ← interpret_unstyled, interpret, strokes_filter, interpret]
  intro c _ hc
  exact TurtleOp.unstyled_of_setsStyle (by simpa using hc)

end Interpreter

/-! ## Configurations -/

namespace GrammarConfig

/-- The configuration with other styles. -/
def restyled (c : GrammarConfig α) (style : String) (symbols : Dictionary Char String) :
    GrammarConfig α :=
  { c with defaultStyle := style, styleSymbols := symbols }

variable [Scalar α]

/-- Where the same symbols set a style, a word draws the same up to the styles of what it draws. -/
theorem map_interpret_restyled (c : GrammarConfig α) (style : String)
    {symbols : Dictionary Char String} (hkeys : symbols.keys = c.styleSymbols.keys) (word : Word) :
    ((c.restyled style symbols).interpret word).map (List.map RoadSegment.unstyled) =
      (c.interpret word).map (List.map RoadSegment.unstyled) := by
  have hchecks : (c.restyled style symbols).validateTurtle = c.validateTurtle := rfl
  unfold interpret Interpreter.ofConfig
  rw [hchecks]
  cases c.validateTurtle with
  | error e => rfl
  | ok _ =>
      simp only [Except.map, ← Interpreter.interpret_unstyled, Interpreter.foldl_withOp_unstyled]
      unfold Dictionary.keys at hkeys
      simp only [restyled, hkeys]
      rfl

end GrammarConfig

end Roadworks
