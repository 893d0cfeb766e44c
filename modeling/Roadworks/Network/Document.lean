import Roadworks.Network.Basic
/-!
Networks as documents, in which nodes and roads have names. A document can come from elsewhere, so
reading one checks everything; kinds of intersections are not believed but derived again.
-/

namespace Roadworks

/-- A node of a document. -/
structure NodeRecord (α : Type) where
  id : String
  position : Vec α
  elevation : α
deriving BEq

/-- A road of a document. -/
structure SegmentRecord where
  id : String
  tail : String
  head : String
  styleClass : String
deriving BEq

/-- An intersection of a document. -/
structure IntersectionRecord (α : Type) where
  node : String
  kind : IntersectionType
  radius : α
deriving BEq

instance {α : Type} [BEq α] : BEq (JunctionRules α) :=
  ⟨fun r s => r.intersectionRadius == s.intersectionRadius && r.roundaboutRadius == s.roundaboutRadius
    && r.minRoundaboutDegree == s.minRoundaboutDegree && r.passMaxBend == s.passMaxBend
    && r.circularTolerance == s.circularTolerance⟩

/-- A network for exchange. -/
structure NetworkDocument (α : Type) where
  name : String
  /-- The tolerance of the network, or nothing for the usual one. -/
  mergeTolerance : Option α
  /-- The rules of the network, or nothing for the usual ones with the radii of the intersections. -/
  junctions : Option (JunctionRules α)
  nodes : List (NodeRecord α)
  segments : List SegmentRecord
  intersections : List (IntersectionRecord α)
deriving BEq

variable {α : Type} [Scalar α]

/-- The name of a node by its position. -/
def nodeLabel (i : Nat) : String := "n" ++ toString i

/-- The name of a road by its position. -/
def segmentLabel (i : Nat) : String := "s" ++ toString i

/-- The document of a network. Nodes and roads are named by their positions. -/
def Network.toDocument (n : Network α) : NetworkDocument α where
  name := n.name
  mergeTolerance := some n.mergeTolerance
  junctions := some n.rules
  nodes := n.nodes.zipIdx.map fun (v, i) => ⟨nodeLabel i, v.position, v.elevation⟩
  segments := n.edges.zipIdx.map fun (e, i) =>
    ⟨segmentLabel i, nodeLabel e.tail, nodeLabel e.head, e.styleClass⟩
  intersections := n.intersections.map fun (i, kind) =>
    ⟨nodeLabel i, kind, n.rules.radiusFor kind⟩

/-- The usual rules with the radii of the first roundabout and of the first other intersection. -/
def restoreRules (records : List (IntersectionRecord α)) : JunctionRules α where
  intersectionRadius :=
    ((records.find? (·.kind != .roundabout)).map (·.radius)).getD JunctionRules.default.intersectionRadius
  roundaboutRadius := (records.find? (·.kind == .roundabout)).map (·.radius)
  minRoundaboutDegree := JunctionRules.default (α := α).minRoundaboutDegree
  passMaxBend := JunctionRules.default.passMaxBend
  circularTolerance := JunctionRules.default.circularTolerance

namespace NetworkDocument

/-- The tolerance in effect. -/
def tolerance (d : NetworkDocument α) : α := d.mergeTolerance.getD Network.defaultTolerance

/-- The rules in effect. -/
def rules (d : NetworkDocument α) : JunctionRules α := d.junctions.getD (restoreRules d.intersections)

/-- The position of a node by its name. -/
def nodeIndex? (d : NetworkDocument α) (name : String) : Option Nat :=
  (d.nodes.map (·.id)).findIdx? (· == name)

/-- The first text that occurs a second time. -/
def firstRepeated (seen : List String) : List String → Option String
  | [] => none
  | s :: rest => if seen.contains s then some s else firstRepeated (s :: seen) rest

/-- The position of a node that a road names. -/
def endOf (d : NetworkDocument α) (r : SegmentRecord) (name : String) :
    Except (GraphError α) Nat :=
  match d.nodeIndex? name with
  | some i => .ok i
  | none => .error (.unknownNode (.name r.id) (.name name))

/-- The road of a record, whose position among the records is `source`. -/
def edgeOf (d : NetworkDocument α) (r : SegmentRecord) (source : Nat) :
    Except (GraphError α) (Edge α) := do
  let tail ← d.endOf r r.tail
  let head ← d.endOf r r.head
  if tail = head then .error (.selfLoop (.name r.id))
  else
    let place (i : Nat) : Vec α := (d.nodes.map (·.position)).getD i .zero
    return ⟨tail, head, (place head - place tail).heading, r.styleClass, source⟩

/-- The roads of the records from `source` on, when the names in `seen` have occurred before. -/
def edgesFrom (d : NetworkDocument α) (seen : List String) (source : Nat) :
    List SegmentRecord → Except (GraphError α) (List (Edge α))
  | [] => .ok []
  | r :: rest =>
    if seen.contains r.id then .error (.duplicateId r.id)
    else do
      let e ← d.edgeOf r source
      let others ← d.edgesFrom (r.id :: seen) (source + 1) rest
      return e :: others

/-- The network of a document, or the first thing that is wrong with it. -/
def toNetwork (d : NetworkDocument α) : Except (GraphError α) (Network α) := do
  if !Network.isTolerance d.tolerance then throw (.invalidTolerance d.tolerance)
  if let some id := firstRepeated [] (d.nodes.map (·.id)) then throw (.duplicateId id)
  let edges ← d.edgesFrom [] 0 d.segments
  if let some r := d.rules.badRadius? then throw (.invalidRadius r)
  let places := d.nodes.map fun r => (r.position, r.elevation)
  let network := Network.ofParts d.name d.tolerance d.rules places edges []
  network.validate
  return network

end NetworkDocument

end Roadworks
