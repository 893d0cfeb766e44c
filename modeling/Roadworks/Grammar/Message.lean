import Roadworks.Grammar.Config
import Roadworks.Decimal.Layout
/-!
The wording of the reasons why a configuration is refused.
-/

namespace Roadworks

/-- What is wrong with a line. -/
def RuleFault.message : RuleFault → String
  | .missingArrow => "missing '->'"
  | .notOneSymbol => "left-hand side must be a single symbol"
  | .unclosedWeight => "unclosed weight"
  | .unreadableWeight => "weight is not a number"

/-- What is wrong with a configuration. -/
def ConfigError.message : ConfigError Float → String
  | .emptyStart => "axiom must not be empty"
  | .noRules => "grammar has no production rules"
  | .negativeIterations n => "iteration count must not be negative, got " ++ toString n.toInt
  | .emptyProductions c => "symbol '" ++ c.toString ++ "' has an empty production list"
  | .invalidWeight c w =>
    "symbol '" ++ c.toString ++ "' has invalid production weight " ++ Decimal.Layout.message.render w
  | .invalidStepLength x =>
    "step length must be positive and finite, got " ++ Decimal.Layout.message.render x
  | .invalidTurnAngle x => "turn angle must be finite, got " ++ Decimal.Layout.message.render x
  | .malformedRule line fault =>
    "malformed rule on line " ++ toString line ++ ": " ++ fault.message

end Roadworks
