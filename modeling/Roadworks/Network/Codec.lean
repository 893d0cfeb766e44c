import Roadworks.Network.Assembly
import Roadworks.Network.Document
import Roadworks.Plane.Codec
/-!
Networks and what belongs to them as documents. The records of a network must be complete; options
take their defaults where a document leaves them out.
-/

namespace Roadworks

variable {α : Type} [Scalar α]

namespace JunctionRules

/-- Rules as a document. -/
def toJson (r : JunctionRules α) : Json α :=
  .record [
    ("intersection_radius", .measure r.intersectionRadius),
    ("roundabout_radius", Json.nullable .measure r.roundaboutRadius),
    ("min_roundabout_degree", .count r.minRoundaboutDegree.toNat),
    ("pass_max_bend", .measure r.passMaxBend),
    ("circular_tolerance", .measure r.circularTolerance)]

/-- Rules from a document. -/
def ofJson? (v : Json α) : Option (JunctionRules α) := do
  let fields ← v.asRecord
    ["intersection_radius", "roundabout_radius", "min_roundabout_degree", "pass_max_bend",
      "circular_tolerance"]
  let base : JunctionRules α := .default
  let intersectionRadius ← Json.optional fields "intersection_radius" Json.asMeasure
    base.intersectionRadius
  let roundaboutRadius ← Json.optional fields "roundabout_radius" (Json.asNullable Json.asMeasure)
    base.roundaboutRadius
  let minRoundaboutDegree ← Json.optional fields "min_roundabout_degree"
    (fun v => (v.asCount 64).map Nat.toUInt64) base.minRoundaboutDegree
  let passMaxBend ← Json.optional fields "pass_max_bend" Json.asMeasure base.passMaxBend
  let circularTolerance ← Json.optional fields "circular_tolerance" Json.asMeasure
    base.circularTolerance
  return ⟨intersectionRadius, roundaboutRadius, minRoundaboutDegree, passMaxBend, circularTolerance⟩

end JunctionRules

namespace AssemblyOptions

/-- Options as a document. -/
def toJson (o : AssemblyOptions α) : Json α :=
  .record [
    ("name", .text o.name),
    ("merge_tolerance", .measure o.mergeTolerance),
    ("elevation", .measure o.elevation),
    ("junctions", o.junctions.toJson)]

/-- Options from a document. -/
def ofJson? (v : Json α) : Option (AssemblyOptions α) := do
  let fields ← v.asRecord ["name", "merge_tolerance", "elevation", "junctions"]
  let base : AssemblyOptions α := .default
  let name ← Json.optional fields "name" Json.asText base.name
  let mergeTolerance ← Json.optional fields "merge_tolerance" Json.asMeasure base.mergeTolerance
  let elevation ← Json.optional fields "elevation" Json.asMeasure base.elevation
  let junctions ← Json.optional fields "junctions" JunctionRules.ofJson? base.junctions
  return ⟨name, mergeTolerance, elevation, junctions⟩

end AssemblyOptions

namespace NodeRecord

/-- A node as a document. -/
def toJson (r : NodeRecord α) : Json α :=
  .record [
    ("id", .text r.id),
    ("position", .array [.measure r.position.x, .measure r.position.y, .measure r.elevation])]

/-- A node from a document. -/
def ofJson? (v : Json α) : Option (NodeRecord α) := do
  let fields ← v.asRecord ["id", "position"]
  let id ← Json.required fields "id" Json.asText
  match ← Json.required fields "position" (Json.asList Json.asMeasure) with
  | [x, y, z] => return ⟨id, ⟨x, y⟩, z⟩
  | _ => none

end NodeRecord

namespace SegmentRecord

/-- A road as a document. -/
def toJson (r : SegmentRecord) : Json α :=
  .record [("id", .text r.id), ("from", .text r.tail), ("to", .text r.head),
    ("style_class", .text r.styleClass)]

/-- A road from a document. -/
def ofJson? (v : Json α) : Option SegmentRecord := do
  let fields ← v.asRecord ["id", "from", "to", "style_class"]
  let id ← Json.required fields "id" Json.asText
  let tail ← Json.required fields "from" Json.asText
  let head ← Json.required fields "to" Json.asText
  let styleClass ← Json.required fields "style_class" Json.asText
  return ⟨id, tail, head, styleClass⟩

end SegmentRecord

namespace IntersectionRecord

/-- An intersection as a document. -/
def toJson (r : IntersectionRecord α) : Json α :=
  .record [("node_id", .text r.node), ("type", .text r.kind.name), ("radius", .measure r.radius)]

/-- An intersection from a document. -/
def ofJson? (v : Json α) : Option (IntersectionRecord α) := do
  let fields ← v.asRecord ["node_id", "type", "radius"]
  let node ← Json.required fields "node_id" Json.asText
  let kind ← Json.required fields "type" (Json.asTag IntersectionType.byName)
  let radius ← Json.required fields "radius" Json.asMeasure
  return ⟨node, kind, radius⟩

end IntersectionRecord

namespace NetworkDocument

/-- A network as a document. A tolerance and rules that are not given are left out. -/
def toJson (d : NetworkDocument α) : Json α :=
  .record (
    [("name", .text d.name)] ++
    d.mergeTolerance.toList.map (fun t => ("merge_tolerance", .measure t)) ++
    d.junctions.toList.map (fun r => ("junctions", r.toJson)) ++
    [("nodes", .array (d.nodes.map NodeRecord.toJson)),
      ("segments", .array (d.segments.map SegmentRecord.toJson)),
      ("intersections", .array (d.intersections.map IntersectionRecord.toJson))])

/-- A network from a document. -/
def ofJson? (v : Json α) : Option (NetworkDocument α) := do
  let fields ← v.asRecord
    ["name", "merge_tolerance", "junctions", "nodes", "segments", "intersections"]
  let name ← Json.required fields "name" Json.asText
  let mergeTolerance ← Json.optional fields "merge_tolerance" (Json.asNullable Json.asMeasure) none
  let junctions ← Json.optional fields "junctions" (Json.asNullable JunctionRules.ofJson?) none
  let nodes ← Json.required fields "nodes" (Json.asList NodeRecord.ofJson?)
  let segments ← Json.required fields "segments" (Json.asList SegmentRecord.ofJson?)
  let intersections ← Json.optional fields "intersections"
    (Json.asList IntersectionRecord.ofJson?) []
  return ⟨name, mergeTolerance, junctions, nodes, segments, intersections⟩

end NetworkDocument

/-- Why no network is read: the value is no document, or its document is unsound. -/
inductive ImportError (α : Type) where
  | notADocument
  | unsound (e : GraphError α)

/-- A network as a value for exchange. -/
def Network.toJson (n : Network α) : Json α := n.toDocument.toJson

/-- A network from a value, after checking it. -/
def Network.ofJson (v : Json α) : Except (ImportError α) (Network α) :=
  match NetworkDocument.ofJson? v with
  | none => .error .notADocument
  | some d => d.toNetwork.mapError .unsound

namespace RoadSegment

/-- A segment as a document. -/
def toJson (s : RoadSegment α) : Json α :=
  .record [("id", .count s.id), ("start", s.start.toJson), ("end", s.stop.toJson),
    ("heading", .measure s.heading), ("style_class", .text s.styleClass)]

/-- A segment from a document. -/
def ofJson? (v : Json α) : Option (RoadSegment α) := do
  let fields ← v.asRecord ["id", "start", "end", "heading", "style_class"]
  let id ← Json.required fields "id" (Json.asCount 64)
  let start ← Json.required fields "start" Vec.ofJson?
  let stop ← Json.required fields "end" Vec.ofJson?
  let heading ← Json.required fields "heading" Json.asMeasure
  let styleClass ← Json.required fields "style_class" Json.asText
  return ⟨id, start, stop, heading, styleClass⟩

end RoadSegment

namespace NetworkSummary

/-- A summary as a document. -/
def toJson (s : NetworkSummary α) : Json α :=
  .record [
    ("nodes", .count s.nodes),
    ("segments", .count s.segments),
    ("total_length", .measure s.totalLength),
    ("dead_ends", .count s.deadEnds),
    ("pass_throughs", .count s.passThroughs),
    ("t_junctions", .count s.tJunctions),
    ("four_ways", .count s.fourWays),
    ("roundabouts", .count s.roundabouts),
    ("unclassified", .count s.unclassified),
    ("components", .count s.components)]

/-- A summary from a document. -/
def ofJson? (v : Json α) : Option (NetworkSummary α) := do
  let fields ← v.asRecord
    ["nodes", "segments", "total_length", "dead_ends", "pass_throughs", "t_junctions", "four_ways",
      "roundabouts", "unclassified", "components"]
  let nodes ← Json.required fields "nodes" (Json.asCount 64)
  let segments ← Json.required fields "segments" (Json.asCount 64)
  let totalLength ← Json.required fields "total_length" Json.asMeasure
  let deadEnds ← Json.required fields "dead_ends" (Json.asCount 64)
  let passThroughs ← Json.required fields "pass_throughs" (Json.asCount 64)
  let tJunctions ← Json.required fields "t_junctions" (Json.asCount 64)
  let fourWays ← Json.required fields "four_ways" (Json.asCount 64)
  let roundabouts ← Json.required fields "roundabouts" (Json.asCount 64)
  let unclassified ← Json.required fields "unclassified" (Json.asCount 64)
  let components ← Json.required fields "components" (Json.asCount 64)
  return ⟨nodes, segments, totalLength, deadEnds, passThroughs, tJunctions, fourWays, roundabouts,
    unclassified, components⟩

end NetworkSummary

end Roadworks
