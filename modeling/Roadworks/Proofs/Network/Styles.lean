import Mathlib.Data.List.Basic
import Roadworks.Network.Basic
/-! # Styles do not shape a network

Everything that is said about a network but the styles of its roads stays the same when they are
wiped off. -/

namespace Roadworks

variable {α : Type}

/-- The road with its style wiped off. -/
def Edge.unstyled (e : Edge α) : Edge α := { e with styleClass := "" }

theorem incidentTo_map_unstyled (edges : List (Edge α)) (node : Nat) :
    incidentTo (edges.map Edge.unstyled) node = incidentTo edges node := by
  rw [incidentTo, List.zipIdx_map, List.filter_map, List.map_map]
  rfl

namespace Network

/-- The network with the styles of all roads wiped off. -/
def unstyled (n : Network α) : Network α := { n with edges := n.edges.map Edge.unstyled }

theorem getElem?_edges_unstyled (n : Network α) (k : Nat) :
    n.unstyled.edges[k]? = n.edges[k]?.map Edge.unstyled :=
  List.getElem?_map

theorem length_edges_unstyled (n : Network α) : n.unstyled.edges.length = n.edges.length :=
  List.length_map _

theorem ofParts_unstyled (name : String) (mergeTolerance : α) (rules : JunctionRules α)
    (places : List (Vec α × α)) (edges : List (Edge α)) (dropped : List DroppedSegment) :
    (ofParts name mergeTolerance rules places edges dropped).unstyled =
      ofParts name mergeTolerance rules places (edges.map Edge.unstyled) dropped := by
  unfold ofParts unstyled
  simp only [incidentTo_map_unstyled]

/-! ## Ends of roads -/

theorem endpoints_unstyled (n : Network α) (edge : Nat) :
    n.unstyled.endpoints edge = n.endpoints edge := by
  rw [endpoints, endpoints, getElem?_edges_unstyled]
  cases n.edges[edge]? <;> rfl

theorem components_unstyled (n : Network α) : n.unstyled.components = n.components := by
  have hends : n.unstyled.edges.map (fun e => (e.tail, e.head)) =
      n.edges.map fun e => (e.tail, e.head) := by
    rw [unstyled, List.map_map]
    rfl
  rw [components, components, hends]
  rfl

theorem checkNode_unstyled (n : Network α) : n.unstyled.checkNode = n.checkNode := by
  funext i v
  unfold checkNode unstyled
  rw [incidentTo_map_unstyled]

variable [Scalar α]

theorem edgeLength_unstyled (n : Network α) : n.unstyled.edgeLength = n.edgeLength := by
  funext edge
  rw [edgeLength, edgeLength, endpoints_unstyled]

theorem validate_unstyled (n : Network α) : n.unstyled.validate = n.validate := by
  have hedges : n.unstyled.edges.zipIdx = n.edges.zipIdx.map (Prod.map Edge.unstyled id) :=
    List.zipIdx_map
  unfold validate
  simp only [List.forM_eq_forM, hedges, List.forM_map, checkNode_unstyled]
  rfl

/-! ## Kinds of intersections -/

theorem approach_unstyled (n : Network α) : n.unstyled.approach = n.approach := by
  funext node edge
  rw [approach, approach, getElem?_edges_unstyled]
  cases n.edges[edge]? <;> rfl

theorem intersectionType_unstyled (n : Network α) :
    n.unstyled.intersectionType = n.intersectionType := by
  funext node
  unfold intersectionType
  rw [approach_unstyled]
  rfl

theorem countNodes_unstyled (n : Network α) : n.unstyled.countNodes = n.countNodes := by
  funext p
  unfold countNodes
  rw [intersectionType_unstyled]
  rfl

theorem summary_unstyled (n : Network α) : n.unstyled.summary = n.summary := by
  simp only [summary, edgeLength_unstyled, length_edges_unstyled, countNodes_unstyled,
    components_unstyled]
  rfl

/-! ## Networks that differ in styles -/

variable {n n' : Network α}

omit [Scalar α] in
theorem nodes_eq_of_unstyled_eq (h : n.unstyled = n'.unstyled) : n.nodes = n'.nodes :=
  show n.unstyled.nodes = n'.unstyled.nodes from congrArg nodes h

omit [Scalar α] in
theorem rules_eq_of_unstyled_eq (h : n.unstyled = n'.unstyled) : n.rules = n'.rules :=
  show n.unstyled.rules = n'.unstyled.rules from congrArg rules h

omit [Scalar α] in
theorem components_eq_of_unstyled_eq (h : n.unstyled = n'.unstyled) :
    n.components = n'.components := by
  rw [← n.components_unstyled, h, n'.components_unstyled]

theorem approach_eq_of_unstyled_eq (h : n.unstyled = n'.unstyled) : n.approach = n'.approach := by
  rw [← n.approach_unstyled, h, n'.approach_unstyled]

theorem intersectionType_eq_of_unstyled_eq (h : n.unstyled = n'.unstyled) :
    n.intersectionType = n'.intersectionType := by
  rw [← n.intersectionType_unstyled, h, n'.intersectionType_unstyled]

theorem summary_eq_of_unstyled_eq (h : n.unstyled = n'.unstyled) : n.summary = n'.summary := by
  rw [← n.summary_unstyled, h, n'.summary_unstyled]

theorem validate_eq_of_unstyled_eq (h : n.unstyled = n'.unstyled) : n.validate = n'.validate := by
  rw [← n.validate_unstyled, h, n'.validate_unstyled]

end Network

end Roadworks
