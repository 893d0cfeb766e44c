import Roadworks.Network.Cluster
import Roadworks.Network.Intersection
import Roadworks.Turtle
/-!
Road networks: nodes in the plane with an elevation, and roads that join two of them. Nodes and roads
are known by their positions in the lists of the network.
-/

namespace Roadworks

/-- A place where roads end. -/
structure Node (α : Type) where
  position : Vec α
  elevation : α
  /-- The roads that end here, in increasing order. -/
  incident : List Nat

/-- A road between two nodes. -/
structure Edge (α : Type) where
  tail : Nat
  head : Nat
  /-- The heading that the road was drawn with. -/
  heading : α
  styleClass : String
  /-- The number of the segment that it was made from. -/
  source : Nat

/-- Why a segment was left out of a network. -/
inductive DroppedSegment where
  | degenerate (segment : Nat)
  | duplicate (segment duplicateOf : Nat)

/-- A network of roads. -/
structure Network (α : Type) where
  name : String
  /-- The distance within which ends of roads are one node. -/
  mergeTolerance : α
  rules : JunctionRules α
  nodes : List (Node α)
  edges : List (Edge α)
  /-- The segments that were left out. -/
  dropped : List DroppedSegment

/-- How a node or a road is called in an error: by its name in a document, or by its position. -/
inductive Label where
  | name (s : String)
  | place (i : Nat)

/-- Why there is no network. -/
inductive GraphError (α : Type) where
  | invalidTolerance (tolerance : α)
  | invalidRadius (radius : α)
  | duplicateId (id : String)
  | unknownNode (segment node : Label)
  | selfLoop (segment : Label)
  | incidenceMismatch (node : Label)
  | nodesTooClose (first second : Label) (distance : α)

/-- What there is in a network. -/
structure NetworkSummary (α : Type) where
  nodes : Nat
  segments : Nat
  totalLength : α
  deadEnds : Nat
  passThroughs : Nat
  tJunctions : Nat
  fourWays : Nat
  roundabouts : Nat
  unclassified : Nat
  components : Nat

/-- The number of roads at a node. -/
def Node.degree {α : Type} (n : Node α) : Nat := n.incident.length

/-- The road ends at the node. -/
def Edge.touches {α : Type} (e : Edge α) (node : Nat) : Bool := e.tail == node || e.head == node

/-- The other end of a road. -/
def Edge.otherEnd {α : Type} (e : Edge α) (node : Nat) : Option Nat :=
  if node = e.tail then some e.head else if node = e.head then some e.tail else none

/-- The roads that end at a node, in increasing order. -/
def incidentTo {α : Type} (edges : List (Edge α)) (node : Nat) : List Nat :=
  (edges.zipIdx.filter fun (e, _) => e.touches node).map (·.2)

theorem mem_incidentTo_iff {α : Type} {edges : List (Edge α)} {node i : Nat} :
    i ∈ incidentTo edges node ↔ ∃ e, edges[i]? = some e ∧ e.touches node := by
  simp only [incidentTo, List.mem_map, List.mem_filter, Prod.exists]
  constructor
  · rintro ⟨e, j, ⟨he, ht⟩, rfl⟩
    exact ⟨e, List.mem_zipIdx_iff_getElem?.mp he, ht⟩
  · rintro ⟨e, he, ht⟩
    exact ⟨e, i, ⟨List.mem_zipIdx_iff_getElem?.mpr he, ht⟩, rfl⟩

theorem pairwise_incidentTo {α : Type} (edges : List (Edge α)) (node : Nat) :
    (incidentTo edges node).Pairwise (· < ·) := by
  have hnumbers : (edges.zipIdx.map (·.2)).Pairwise (· < ·) := by
    rw [List.zipIdx_map_snd]
    exact List.pairwise_lt_range'
  rw [incidentTo, List.pairwise_map]
  exact (List.pairwise_map.mp hnumbers).filter _

namespace Network

variable {α : Type} [Scalar α]

/-- The tolerance where none is given. -/
def defaultTolerance : α := 0.01

/-- A distance that ends of roads can be merged within. -/
def isTolerance (t : α) : Bool := Scalar.isFinite t && !decide (t ≤ 0.0)

/-- Puts a network together; every node gets the list of its roads. -/
def ofParts (name : String) (mergeTolerance : α) (rules : JunctionRules α)
    (places : List (Vec α × α)) (edges : List (Edge α)) (dropped : List DroppedSegment) :
    Network α where
  name := name
  mergeTolerance := mergeTolerance
  rules := rules
  nodes := places.zipIdx.map fun ((position, elevation), i) =>
    ⟨position, elevation, incidentTo edges i⟩
  edges := edges
  dropped := dropped

/-- The positions of the two ends of a road. -/
def endpoints (n : Network α) (edge : Nat) : Option (Vec α × Vec α) := do
  let e ← n.edges[edge]?
  let a ← n.nodes[e.tail]?
  let b ← n.nodes[e.head]?
  return (a.position, b.position)

/-- The length of a road. -/
def edgeLength (n : Network α) (edge : Nat) : Option α :=
  (n.endpoints edge).map fun (a, b) => a.dist b

/-- The direction in which a road leaves a node. -/
def approach (n : Network α) (node edge : Nat) : Option (Vec α) := do
  let e ← n.edges[edge]?
  let other ← e.otherEnd node
  let far ← n.nodes[other]?
  let near ← n.nodes[node]?
  let direction := far.position - near.position
  if 0.0 < direction.norm2 then some direction.unit else none

/-- The kind of intersection at a node, if it is one. -/
def intersectionType (n : Network α) (node : Nat) : Option IntersectionType :=
  match n.nodes[node]? with
  | none => none
  | some v => n.rules.classify (v.incident.filterMap (n.approach node))

/-- All intersections in the order of their nodes. -/
def intersections (n : Network α) : List (Nat × IntersectionType) :=
  (List.range n.nodes.length).filterMap fun i => (n.intersectionType i).map (i, ·)

/-- Checks that a road joins two nodes of the network. -/
def checkEdge (n : Network α) (i : Nat) (e : Edge α) : Except (GraphError α) Unit :=
  if n.nodes.length ≤ e.tail then .error (.unknownNode (.place i) (.place e.tail))
  else if n.nodes.length ≤ e.head then .error (.unknownNode (.place i) (.place e.head))
  else if e.tail = e.head then .error (.selfLoop (.place i))
  else .ok ()

/-- Checks that a node lists the roads that end there. -/
def checkNode (n : Network α) (i : Nat) (v : Node α) : Except (GraphError α) Unit :=
  if v.incident.mergeSort = incidentTo n.edges i then .ok ()
  else .error (.incidenceMismatch (.place i))

/-- Checks that no two nodes are as near as ends that are merged. -/
def checkDistances (n : Network α) : Except (GraphError α) Unit :=
  let positions := n.nodes.map (·.position)
  match nearPairs n.mergeTolerance positions with
  | [] => .ok ()
  | (i, j) :: _ =>
    .error (.nodesTooClose (.place j) (.place i)
      ((positions.getD j .zero).dist (positions.getD i .zero)))

/-- Checks that a network is sound: every road joins two of its nodes, every node lists its roads,
and the nodes are apart. -/
def validate (n : Network α) : Except (GraphError α) Unit := do
  n.edges.zipIdx.forM fun (e, i) => n.checkEdge i e
  n.nodes.zipIdx.forM fun (v, i) => n.checkNode i v
  n.checkDistances

/-- The nodes that roads lead to from each other, as lists in the order of their first nodes. -/
def components (n : Network α) : List (List Nat) :=
  let sets := ((DisjointSet.new n.nodes.length).joinAll (n.edges.map fun e => (e.tail, e.head))).2
  let nodes := List.range n.nodes.length
  (nodes.filter fun i => sets.root i == i).map fun r => nodes.filter fun i => sets.root i == r

/-- How many nodes have a property that depends on their degree and kind. -/
def countNodes (n : Network α) (p : Nat → Option IntersectionType → Bool) : Nat :=
  n.nodes.zipIdx.countP fun (v, i) => p v.degree (n.intersectionType i)

/-- The summary of a network. -/
def summary (n : Network α) : NetworkSummary α where
  nodes := n.nodes.length
  segments := n.edges.length
  totalLength := Scalar.sum ((List.range n.edges.length).filterMap n.edgeLength)
  deadEnds := n.countNodes fun degree kind => kind == none && degree ≤ 1
  passThroughs := n.countNodes fun _ kind => kind == some .pass
  tJunctions := n.countNodes fun _ kind => kind == some .threeWay
  fourWays := n.countNodes fun _ kind => kind == some .fourWay
  roundabouts := n.countNodes fun _ kind => kind == some .roundabout
  unclassified := n.countNodes fun degree kind => kind == none && 1 < degree
  components := n.components.length

/-- The roads as segments between the positions of their nodes, numbered in order. -/
def toSegments (n : Network α) : List (RoadSegment α) :=
  let drawn := n.edges.zipIdx.filterMap fun (e, i) =>
    (n.endpoints i).map fun (a, b) => (e, a, b)
  drawn.zipIdx.map fun ((e, a, b), id) => ⟨id, a, b, (b - a).heading, e.styleClass⟩

end Network

end Roadworks
