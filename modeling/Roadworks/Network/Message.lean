import Roadworks.Network.Assembly
import Roadworks.Network.Document
import Roadworks.Scalar.Binary64
import Roadworks.Decimal.Layout
/-!
The wording of what goes wrong or is worth telling when networks are made and read.
-/

namespace Roadworks

/-- The key of a node or road by its position: counted from one, in its first version. -/
def placeText (i : Nat) : String := toString (i + 1) ++ "v1"

/-- How a node is called in a message. -/
def nodeText (i : Nat) : String := "NodeId(" ++ placeText i ++ ")"

/-- How a road is called in a message. -/
def segmentText (i : Nat) : String := "SegmentId(" ++ placeText i ++ ")"

/-- The text of a label. -/
def Label.text : Label → String
  | .name s => s
  | .place i => placeText i

/-- Why there is no network. -/
def GraphError.message : GraphError Float → String
  | .invalidTolerance t =>
    "merge tolerance must be positive and finite, got " ++ Decimal.Layout.message.render t
  | .invalidRadius r =>
    "junction radius must be non-negative and finite, got " ++ Decimal.Layout.message.render r
  | .duplicateId id => "duplicate id '" ++ id ++ "'"
  | .unknownNode s v => "segment '" ++ s.text ++ "' references unknown node '" ++ v.text ++ "'"
  | .selfLoop s => "segment '" ++ s.text ++ "' starts and ends at the same node"
  | .incidenceMismatch v =>
    "incident segments of node '" ++ v.text ++ "' do not match the segment list"
  | .nodesTooClose a b d =>
    "nodes '" ++ a.text ++ "' and '" ++ b.text ++ "' are " ++ Decimal.Layout.message.render d ++
      " apart, within the merge tolerance"

/-- Why a segment was left out. -/
def DroppedSegment.message : DroppedSegment → String
  | .degenerate i =>
    "segment " ++ toString i ++ " collapsed to a single node and was dropped"
  | .duplicate i first =>
    "segment " ++ toString i ++ " duplicates segment " ++ toString first ++ " and was dropped"

/-- Something worth telling. -/
inductive Notice where
  | warning (text : String)
  | info (text : String)
deriving BEq

namespace Notice

/-- The line of a notice. -/
def line : Notice → String
  | .warning s => "WARN " ++ s
  | .info s => "INFO " ++ s

/-- The notice about a segment that was left out. -/
def ofDropped : DroppedSegment → Notice
  | .degenerate i => .warning ("segment " ++ toString i ++ " collapsed to a single node")
  | .duplicate i first =>
    .warning ("segment " ++ toString i ++ " duplicates segment " ++ toString first)

/-- What is told about an assembled network: the segments that were left out, and its size. -/
def ofAssembly (n : Network Float) : List Notice :=
  let s := n.summary
  n.dropped.map ofDropped ++
    [.info ("assembled '" ++ n.name ++ "': " ++ toString s.nodes ++ " nodes, " ++
      toString s.segments ++ " segments, " ++ Decimal.oneDecimal s.totalLength ++ " m of road, " ++
      toString n.dropped.length ++ " warnings")]

/-- What is told about an intersection record of a document, if the network disagrees with it. -/
def ofRecord? {α : Type} [Scalar α] (d : NetworkDocument α) (n : Network α)
    (r : IntersectionRecord α) : Option Notice :=
  match d.nodeIndex? r.node with
  | none => some (.warning ("intersection record for unknown node '" ++ r.node ++ "' ignored"))
  | some i =>
    let derived := n.intersectionType i
    if derived = some r.kind then none
    else some (.warning ("node '" ++ r.node ++ "' is recorded as " ++ r.kind.name ++
      " but classifies as " ++ (derived.map (·.name)).getD "unclassified"))

/-- What is told about a document and the network that was read from it. -/
def ofImport {α : Type} [Scalar α] (d : NetworkDocument α) (n : Network α) : List Notice :=
  d.intersections.filterMap (ofRecord? d n)

end Notice

end Roadworks
