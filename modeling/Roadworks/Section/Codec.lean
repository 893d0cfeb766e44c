import Roadworks.Section.Profile
import Roadworks.Json.Decode
/-!
Styles and catalogues as documents. Whatever a document leaves out takes its default.
-/

namespace Roadworks

/-- The styles of lines by name. -/
def LineStyle.byName : List (String × LineStyle) :=
  [("none", .none), ("solid", .solid), ("dashed", .dashed), ("double_solid", .doubleSolid)]

/-- The name of a style of lines in documents. -/
def LineStyle.name : LineStyle → String
  | .none => "none"
  | .solid => "solid"
  | .dashed => "dashed"
  | .doubleSolid => "double_solid"

/-- Every style of lines is known by its name. -/
theorem LineStyle.lookup_name (s : LineStyle) : byName.lookup s.name = some s := by
  cases s <;> rfl

variable {α : Type} [Scalar α]

namespace MarkingPattern

/-- A pattern as a document. -/
def toJson (m : MarkingPattern α) : Json α :=
  .record [
    ("centre", .text m.centre.name),
    ("lane", .text m.lane.name),
    ("edge", .text m.edge.name),
    ("dash_length", .measure m.dashLength),
    ("gap_length", .measure m.gapLength),
    ("line_width", .measure m.lineWidth)]

/-- A pattern from a document. -/
def ofJson? (v : Json α) : Option (MarkingPattern α) := do
  let fields ← v.asRecord ["centre", "lane", "edge", "dash_length", "gap_length", "line_width"]
  let base : MarkingPattern α := .default
  let centre ← Json.optional fields "centre" (Json.asTag LineStyle.byName) base.centre
  let lane ← Json.optional fields "lane" (Json.asTag LineStyle.byName) base.lane
  let edge ← Json.optional fields "edge" (Json.asTag LineStyle.byName) base.edge
  let dashLength ← Json.optional fields "dash_length" Json.asMeasure base.dashLength
  let gapLength ← Json.optional fields "gap_length" Json.asMeasure base.gapLength
  let lineWidth ← Json.optional fields "line_width" Json.asMeasure base.lineWidth
  return ⟨centre, lane, edge, dashLength, gapLength, lineWidth⟩

end MarkingPattern

namespace CurbProfile

/-- A curb as a document. -/
def toJson (c : CurbProfile α) : Json α :=
  .record [
    ("height", .measure c.height),
    ("width", .measure c.width),
    ("sidewalk_width", .measure c.sidewalkWidth)]

/-- A curb from a document. -/
def ofJson? (v : Json α) : Option (CurbProfile α) := do
  let fields ← v.asRecord ["height", "width", "sidewalk_width"]
  let base : CurbProfile α := .default
  let height ← Json.optional fields "height" Json.asMeasure base.height
  let width ← Json.optional fields "width" Json.asMeasure base.width
  let sidewalkWidth ← Json.optional fields "sidewalk_width" Json.asMeasure base.sidewalkWidth
  return ⟨height, width, sidewalkWidth⟩

end CurbProfile

namespace StyleProfile

/-- A style as a document. -/
def toJson (p : StyleProfile α) : Json α :=
  .record [
    ("lane_count", .count p.laneCount.toNat),
    ("lane_width", .measure p.laneWidth),
    ("shoulder_width", Json.nullable .measure p.shoulderWidth),
    ("median_width", Json.nullable .measure p.medianWidth),
    ("markings", p.markings.toJson),
    ("curb", Json.nullable CurbProfile.toJson p.curb)]

/-- A style from a document. -/
def ofJson? (v : Json α) : Option (StyleProfile α) := do
  let fields ← v.asRecord
    ["lane_count", "lane_width", "shoulder_width", "median_width", "markings", "curb"]
  let base : StyleProfile α := .default
  let laneCount ← Json.optional fields "lane_count"
    (fun v => (v.asCount 32).map Nat.toUInt32) base.laneCount
  let laneWidth ← Json.optional fields "lane_width" Json.asMeasure base.laneWidth
  let shoulderWidth ← Json.optional fields "shoulder_width" (Json.asNullable Json.asMeasure)
    base.shoulderWidth
  let medianWidth ← Json.optional fields "median_width" (Json.asNullable Json.asMeasure)
    base.medianWidth
  let markings ← Json.optional fields "markings" MarkingPattern.ofJson? base.markings
  let curb ← Json.optional fields "curb" (Json.asNullable CurbProfile.ofJson?) base.curb
  return ⟨laneCount, laneWidth, shoulderWidth, medianWidth, markings, curb⟩

end StyleProfile

namespace StyleCatalog

/-- A catalogue as a document: its styles by name. -/
def toJson (c : StyleCatalog α) : Json α :=
  .record (c.entries.map fun (name, p) => (name, p.toJson))

/-- A catalogue from a document. -/
def ofJson? (v : Json α) : Option (StyleCatalog α) := v.asDictionary some StyleProfile.ofJson?

end StyleCatalog

end Roadworks
