import Roadworks.Generator
import Roadworks.Grammar.Codec
import Roadworks.Network.Codec
/-!
The configuration of all stages as one document. Whatever a document leaves out takes its default.
-/

namespace Roadworks

variable {α : Type} [Scalar α]

namespace BuildOptions

/-- Options as a document. -/
def toJson (o : BuildOptions α) : Json α :=
  .record [
    ("miter_limit", .measure o.miterLimit),
    ("arc_segments", .count o.arcSegments.toNat),
    ("marking_lift", .measure o.markingLift),
    ("island_height", .measure o.islandHeight)]

/-- Options from a document. -/
def ofJson? (v : Json α) : Option (BuildOptions α) := do
  let fields ← v.asRecord ["miter_limit", "arc_segments", "marking_lift", "island_height"]
  let base : BuildOptions α := .default
  let miterLimit ← Json.optional fields "miter_limit" Json.asMeasure base.miterLimit
  let arcSegments ← Json.optional fields "arc_segments"
    (fun v => (v.asCount 64).map Nat.toUInt64) base.arcSegments
  let markingLift ← Json.optional fields "marking_lift" Json.asMeasure base.markingLift
  let islandHeight ← Json.optional fields "island_height" Json.asMeasure base.islandHeight
  return ⟨miterLimit, arcSegments, markingLift, islandHeight⟩

end BuildOptions

namespace GeneratorConfig

/-- A configuration as a document. -/
def toJson (c : GeneratorConfig α) : Json α :=
  .record [("grammar", c.grammar.toJson), ("assembly", c.assembly.toJson),
    ("geometry", c.geometry.toJson)]

/-- A configuration from a document. -/
def ofJson? (v : Json α) : Option (GeneratorConfig α) := do
  let fields ← v.asRecord ["grammar", "assembly", "geometry"]
  let base : GeneratorConfig α := .default
  let grammar ← Json.optional fields "grammar" GrammarConfig.ofJson? base.grammar
  let assembly ← Json.optional fields "assembly" AssemblyOptions.ofJson? base.assembly
  let geometry ← Json.optional fields "geometry" BuildOptions.ofJson? base.geometry
  return ⟨grammar, assembly, geometry⟩

end GeneratorConfig

end Roadworks
