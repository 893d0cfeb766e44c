import Roadworks.Grammar.Config
import Roadworks.Decimal.Reader
import Roadworks.Text.Blank
/-!
Rule texts. A line is empty or reads `X -> body` or `X -> (weight) body`; blanks inside a body do
not count, and a hash begins a comment.
-/

namespace Roadworks

variable {α : Type} [Scalar α]

/-- The weight in parentheses before a body, or one, and the body. -/
def readBody (right : List Char) : Except RuleFault (Production α) :=
  match right with
  | '(' :: rest =>
    match Text.cutAt ')' rest with
    | none => .error .unclosedWeight
    | some (weight, body) =>
      match Decimal.read (Text.trim weight) with
      | none => .error .unreadableWeight
      | some w => .ok ⟨w, Text.squeeze body⟩
  | right => .ok ⟨1.0, Text.squeeze right⟩

/-- The rule on a line, or `none` where the line holds none. -/
def readRule (line : List Char) : Except RuleFault (Option (Char × Production α)) :=
  match Text.trim (line.takeWhile (· != '#')) with
  | [] => .ok none
  | line =>
    match Text.cutArrow line with
    | none => .error .missingArrow
    | some (left, right) =>
      match Text.trim left with
      | [symbol] => (readBody (Text.trim right)).map fun p => some (symbol, p)
      | _ => .error .notOneSymbol

/-- The rules on the lines of a text, the first of which has the given number. -/
def readLines (number : Nat) : List (List Char) → Except (ConfigError α) (List (Char × Production α))
  | [] => .ok []
  | line :: rest =>
    match readRule line with
    | .error fault => .error (.malformedRule number fault)
    | .ok none => readLines (number + 1) rest
    | .ok (some rule) => (readLines (number + 1) rest).map (rule :: ·)

/-- The rules of a text by symbol. -/
def Rules.read (text : String) : Except (ConfigError α) (Rules α) :=
  (readLines 1 (Text.lines text.toList)).map fun rules =>
    rules.foldl (fun d (symbol, p) => Rules.add d symbol p) .empty

/-- The rules with the candidates of others after those they have. -/
def Rules.merge (rules more : Rules α) : Rules α :=
  more.entries.foldl (fun d (symbol, ps) => d.alter symbol fun old => old.getD [] ++ ps) rules

/-- The configuration with the rules of a text after those it has. -/
def GrammarConfig.withRules (c : GrammarConfig α) (text : String) :
    Except (ConfigError α) (GrammarConfig α) :=
  (Rules.read text).map fun rules => { c with rules := Rules.merge c.rules rules }

end Roadworks
