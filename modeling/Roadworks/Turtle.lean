import Roadworks.Grammar.Config
import Roadworks.Plane.Vec
/-!
The turtle that walks a word and draws roads. It starts at the origin facing along the first axis;
every symbol may stand for an operation, and symbols without one are passed over. States can be
pushed on a stack of limited depth: a push that finds it full is dropped together with its pop.
-/

namespace Roadworks

/-- A straight road as it was drawn, before its ends are joined to others. -/
structure RoadSegment (α : Type) where
  /-- The number of the segment in the order of drawing. -/
  id : Nat
  start : Vec α
  stop : Vec α
  /-- The heading of the turtle when it drew the segment. -/
  heading : α
  styleClass : String

/-- Where the turtle is, where it faces, and in which style it draws. -/
structure TurtleState (α : Type) where
  position : Vec α
  heading : α
  styleClass : String

/-- What a symbol tells the turtle to do. -/
inductive TurtleOp (α : Type) where
  /-- Take a step and draw it. -/
  | draw
  /-- Take a step without drawing. -/
  | move
  /-- Turn left by the configured angle times the factor. -/
  | turn (factor : α)
  | turnAround
  | push
  | pop
  | setStyle (styleClass : String)
  | ignore

/-- The operation takes a step and draws it. -/
def TurtleOp.draws {α : Type} : TurtleOp α → Bool
  | .draw => true
  | _ => false

/-- The meaning of every symbol and the sizes of a turn and of a step. -/
structure Interpreter (α : Type) where
  op : Char → TurtleOp α
  /-- The angle of one turn in radians. -/
  turnAngle : α
  stepLength : α
  defaultStyle : String
  maxStackDepth : Nat

/-- The turtle with what it remembers: pushed states, the last one first, and how many dropped
pushes are still open. -/
structure Walk (α : Type) where
  turtle : TurtleState α
  stack : List (TurtleState α)
  dropped : Nat

/-- One step that was drawn. -/
structure Stroke (α : Type) where
  start : Vec α
  stop : Vec α
  heading : α
  styleClass : String

variable {α : Type} [Scalar α]

/-- The length of a segment. -/
def RoadSegment.length (s : RoadSegment α) : α := s.start.dist s.stop

namespace TurtleState

/-- The turtle at the origin, facing along the first axis. -/
def initial (styleClass : String) : TurtleState α := ⟨.zero, 0.0, styleClass⟩

/-- The vector of length one that the turtle faces along. -/
def forward (t : TurtleState α) : Vec α := .ofHeading t.heading

/-- The turtle after turning left by an angle. -/
def turn (t : TurtleState α) (angle : α) : TurtleState α :=
  { t with heading := normalizeAngle (t.heading + angle) }

/-- The turtle after a step of the given length. -/
def step (t : TurtleState α) (length : α) : TurtleState α :=
  { t with position := t.position + t.forward * length }

end TurtleState

namespace Interpreter

/-- The symbols that every turtle knows. -/
def standardOp : Char → TurtleOp α
  | 'F' | 'G' => .draw
  | 'f' => .move
  | '+' => .turn 1.0
  | '-' => .turn (-1.0)
  | '|' => .turnAround
  | '[' => .push
  | ']' => .pop
  | _ => .ignore

/-- The interpreter in which a symbol stands for an operation. -/
def withOp (i : Interpreter α) (symbol : Char) (op : TurtleOp α) : Interpreter α :=
  { i with op := fun c => if c = symbol then op else i.op c }

/-- The interpreter of a configuration whose turtle part is sound: the standard symbols and those
that change the style. -/
def ofConfig (c : GrammarConfig α) : Except (ConfigError α) (Interpreter α) :=
  c.validateTurtle.map fun _ =>
    c.styleSymbols.entries.foldl (fun i (symbol, style) => i.withOp symbol (.setStyle style))
      ⟨standardOp, Scalar.radians c.turnAngle, c.stepLength, c.defaultStyle, c.maxStackDepth.toNat⟩

/-- Where a walk begins. -/
def begin (i : Interpreter α) : Walk α := ⟨.initial i.defaultStyle, [], 0⟩

/-- The walk after one operation. -/
def advance (i : Interpreter α) (w : Walk α) : TurtleOp α → Walk α
  | .draw | .move => { w with turtle := w.turtle.step i.stepLength }
  | .turn factor => { w with turtle := w.turtle.turn (i.turnAngle * factor) }
  | .turnAround => { w with turtle := w.turtle.turn Scalar.pi }
  | .push =>
    if w.stack.length < i.maxStackDepth then { w with stack := w.turtle :: w.stack }
    else { w with dropped := w.dropped + 1 }
  | .pop =>
    if 0 < w.dropped then { w with dropped := w.dropped - 1 }
    else match w.stack with
      | [] => w
      | t :: rest => { w with turtle := t, stack := rest }
  | .setStyle style => { w with turtle := { w.turtle with styleClass := style } }
  | .ignore => w

/-- The walk after a word. -/
def walk (i : Interpreter α) (w : Walk α) (word : Word) : Walk α :=
  word.foldl (fun w c => i.advance w (i.op c)) w

/-- What an operation draws. -/
def stroke? (i : Interpreter α) (w : Walk α) : TurtleOp α → Option (Stroke α)
  | .draw =>
    some ⟨w.turtle.position, (w.turtle.step i.stepLength).position, w.turtle.heading,
      w.turtle.styleClass⟩
  | _ => none

/-- What a word draws from a point of the walk on. -/
def strokes (i : Interpreter α) (w : Walk α) : Word → List (Stroke α)
  | [] => []
  | c :: rest =>
    match i.stroke? w (i.op c) with
    | none => i.strokes (i.advance w (i.op c)) rest
    | some s => s :: i.strokes (i.advance w (i.op c)) rest

/-- The segments that a word draws, numbered in order. -/
def interpret (i : Interpreter α) (word : Word) : List (RoadSegment α) :=
  (i.strokes i.begin word).zipIdx.map fun (s, id) => ⟨id, s.start, s.stop, s.heading, s.styleClass⟩

/-! ### Words in parts -/

theorem walk_append (i : Interpreter α) (w : Walk α) (u v : Word) :
    i.walk w (u ++ v) = i.walk (i.walk w u) v :=
  List.foldl_append

/-- What a word draws is drawn by its parts, the second of which begins where the first ends. -/
theorem strokes_append (i : Interpreter α) (w : Walk α) (u v : Word) :
    i.strokes w (u ++ v) = i.strokes w u ++ i.strokes (i.walk w u) v := by
  induction u generalizing w with
  | nil => rfl
  | cons c u ih =>
      rw [List.cons_append, strokes, strokes, ih]
      split <;> rfl

/-- There are as many strokes as symbols that draw. -/
theorem length_strokes (i : Interpreter α) (w : Walk α) (word : Word) :
    (i.strokes w word).length = word.countP fun c => (i.op c).draws := by
  induction word generalizing w with
  | nil => rfl
  | cons c word ih => cases h : i.op c <;> simp [strokes, stroke?, h, ih, TurtleOp.draws]

theorem length_interpret (i : Interpreter α) (word : Word) :
    (i.interpret word).length = word.countP fun c => (i.op c).draws := by
  rw [interpret, List.length_map, List.length_zipIdx, length_strokes]

end Interpreter

/-- The segments that a word draws under a configuration. -/
def GrammarConfig.interpret (c : GrammarConfig α) (word : Word) :
    Except (ConfigError α) (List (RoadSegment α)) :=
  (Interpreter.ofConfig c).map fun i => i.interpret word

end Roadworks
