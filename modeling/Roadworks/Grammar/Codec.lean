import Roadworks.Grammar.Config
import Roadworks.Json.Decode
/-!
Grammars as documents. Whatever a document leaves out takes its default.
-/

namespace Roadworks

variable {α : Type} [Scalar α]

/-- A word as a value. -/
def Json.word (w : Word) : Json α := .text (.ofList w)

/-- A word from a value. -/
def Json.asWord (v : Json α) : Option Word := v.asText.map String.toList

namespace Production

/-- A production as a document. -/
def toJson (p : Production α) : Json α :=
  .record [("weight", .measure p.weight), ("replacement", .word p.body)]

/-- A production from a document. The weight is one where it is missing. -/
def ofJson? (v : Json α) : Option (Production α) := do
  let fields ← v.asRecord ["weight", "replacement"]
  let weight ← Json.optional fields "weight" Json.asMeasure 1.0
  let body ← Json.required fields "replacement" Json.asWord
  return ⟨weight, body⟩

end Production

namespace GrammarConfig

/-- A map by symbol as a document. -/
def symbolMap {β : Type} (encode : β → Json α) (d : Dictionary Char β) : Json α :=
  .record (d.entries.map fun (c, v) => (c.toString, encode v))

/-- A configuration as a document. -/
def toJson (c : GrammarConfig α) : Json α :=
  .record [
    ("axiom", .word c.start),
    ("rules", symbolMap (fun ps => .array (ps.map Production.toJson)) c.rules),
    ("iterations", .integer c.iterations.toInt),
    ("turn_angle", .measure c.turnAngle),
    ("step_length", .measure c.stepLength),
    ("seed", Json.nullable (fun s => .count s.toNat) c.seed),
    ("default_style", .text c.defaultStyle),
    ("style_symbols", symbolMap Json.text c.styleSymbols),
    ("max_stack_depth", .count c.maxStackDepth.toNat)]

/-- The names of the fields in order. -/
def fieldNames : List String :=
  ["axiom", "rules", "iterations", "turn_angle", "step_length", "seed", "default_style",
    "style_symbols", "max_stack_depth"]

/-- A configuration from a document. -/
def ofJson? (v : Json α) : Option (GrammarConfig α) := do
  let fields ← v.asRecord fieldNames
  let base : GrammarConfig α := .default
  let start ← Json.optional fields "axiom" Json.asWord base.start
  let rules ← Json.optional fields "rules"
    (Json.asDictionary Json.soleSymbol (Json.asList Production.ofJson?)) base.rules
  let iterations ← Json.optional fields "iterations"
    (fun v => (v.asInteger Int32.minValue.toInt Int32.maxValue.toInt).map Int32.ofInt)
    base.iterations
  let turnAngle ← Json.optional fields "turn_angle" Json.asMeasure base.turnAngle
  let stepLength ← Json.optional fields "step_length" Json.asMeasure base.stepLength
  let seed ← Json.optional fields "seed"
    (Json.asNullable fun v => (v.asCount 64).map Nat.toUInt64) base.seed
  let defaultStyle ← Json.optional fields "default_style" Json.asText base.defaultStyle
  let styleSymbols ← Json.optional fields "style_symbols"
    (Json.asDictionary Json.soleSymbol Json.asText) base.styleSymbols
  let maxStackDepth ← Json.optional fields "max_stack_depth"
    (fun v => (v.asCount 64).map Nat.toUInt64) base.maxStackDepth
  return ⟨start, rules, iterations, turnAngle, stepLength, seed, defaultStyle, styleSymbols,
    maxStackDepth⟩

end GrammarConfig

end Roadworks
