import Roadworks.Scalar
import Roadworks.Dictionary
/-!
Road grammars: a starting word, the productions of its symbols, and how the turtle that walks the
expanded word turns and steps. A configuration says everything; checking it is a separate step.
-/

namespace Roadworks

/-- A word is a sequence of symbols. -/
abbrev Word := List Char

/-- One candidate for what takes the place of a symbol. -/
structure Production (α : Type) where
  /-- How likely this candidate is, relative to the others. -/
  weight : α
  body : Word

/-- What can be wrong with a line of a rule text. -/
inductive RuleFault where
  | missingArrow
  | notOneSymbol
  | unclosedWeight
  | unreadableWeight
deriving DecidableEq

/-- Why a configuration is refused. -/
inductive ConfigError (α : Type) where
  | emptyStart
  | noRules
  | negativeIterations (count : Int32)
  | emptyProductions (symbol : Char)
  | invalidWeight (symbol : Char) (weight : α)
  | invalidStepLength (length : α)
  | invalidTurnAngle (degrees : α)
  | malformedRule (line : Nat) (fault : RuleFault)

/-- The candidates of every symbol that has any. -/
abbrev Rules (α : Type) := Dictionary Char (List (Production α))

/-- The rules with one more candidate for a symbol, after those it has. -/
def Rules.add {α : Type} (rules : Rules α) (symbol : Char) (p : Production α) : Rules α :=
  rules.alter symbol fun ps => ps.getD [] ++ [p]

/-- A grammar and the parameters of its turtle. -/
structure GrammarConfig (α : Type) where
  /-- The word that expansion begins with. -/
  start : Word
  rules : Rules α
  /-- How often the word is expanded. -/
  iterations : Int32
  /-- The angle of one turn in degrees. -/
  turnAngle : α
  /-- The length of one step. -/
  stepLength : α
  /-- Where random choices between candidates begin; without it they are left open. -/
  seed : Option UInt64
  /-- The style of roads that are drawn before a symbol changes it. -/
  defaultStyle : String
  /-- The symbols that change the style, and what they change it to. -/
  styleSymbols : Dictionary Char String
  /-- How many states the turtle can remember. -/
  maxStackDepth : UInt64

namespace GrammarConfig

variable {α : Type} [Scalar α]

/-- The configuration where nothing is said: one step forward and no rules. -/
def default : GrammarConfig α where
  start := ['F']
  rules := .empty
  iterations := 1
  turnAngle := 90.0
  stepLength := 10.0
  seed := none
  defaultStyle := "local"
  styleSymbols := .empty
  maxStackDepth := 1024

/-- The configuration with one more candidate for a symbol. -/
def withProduction (c : GrammarConfig α) (symbol : Char) (p : Production α) : GrammarConfig α :=
  { c with rules := c.rules.add symbol p }

/-- The configuration with a symbol that changes the style. -/
def withStyleSymbol (c : GrammarConfig α) (symbol : Char) (style : String) : GrammarConfig α :=
  { c with styleSymbols := c.styleSymbols.insert symbol style }

/-- A weight that no production can have. -/
def badWeight (w : α) : Bool := !Scalar.isFinite w || decide (w < 0.0)

/-- Checks the candidates of one symbol: there are some, no weight is negative or infinite, and not
all of them are zero. -/
def checkProductions (symbol : Char) (ps : List (Production α)) : Except (ConfigError α) Unit :=
  if ps.isEmpty then .error (.emptyProductions symbol)
  else match ps.find? fun p => badWeight p.weight with
    | some p => .error (.invalidWeight symbol p.weight)
    | none => if ps.all fun p => p.weight == 0.0 then .error (.invalidWeight symbol 0.0) else .ok ()

/-- Checks what expansion uses. -/
def validateGrammar (c : GrammarConfig α) : Except (ConfigError α) Unit :=
  if c.start.isEmpty then .error .emptyStart
  else if c.rules.isEmpty then .error .noRules
  else if c.iterations < 0 then .error (.negativeIterations c.iterations)
  else c.rules.entries.forM fun (symbol, ps) => checkProductions symbol ps

/-- Checks what the turtle uses. -/
def validateTurtle (c : GrammarConfig α) : Except (ConfigError α) Unit :=
  if !Scalar.isFinite c.stepLength ∨ c.stepLength ≤ 0.0 then .error (.invalidStepLength c.stepLength)
  else if !Scalar.isFinite c.turnAngle then .error (.invalidTurnAngle c.turnAngle)
  else .ok ()

/-- Checks the whole configuration, the grammar first. -/
def validate (c : GrammarConfig α) : Except (ConfigError α) Unit := do
  c.validateGrammar
  c.validateTurtle

end GrammarConfig

end Roadworks
