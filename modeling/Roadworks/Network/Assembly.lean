import Roadworks.Network.Basic
/-!
Making a network of drawn segments. Ends that lie near each other become one node; a segment that
shrinks to a node and a segment beside an earlier one are left out.
-/

namespace Roadworks

/-- How segments are made into a network. -/
structure AssemblyOptions (α : Type) where
  name : String
  /-- Ends nearer than this are one node. -/
  mergeTolerance : α
  /-- The elevation of all nodes. -/
  elevation : α
  junctions : JunctionRules α

/-- The options where nothing is said. -/
def AssemblyOptions.default {α : Type} [Scalar α] : AssemblyOptions α :=
  ⟨"network", Network.defaultTolerance, 0.0, .default⟩

/-- A segment between two clusters of ends. -/
structure Placed (α : Type) where
  segment : RoadSegment α
  tail : Nat
  head : Nat

namespace Placed

variable {α : Type}

/-- Both segments join the same two clusters, in whatever direction. -/
def parallel (p q : Placed α) : Bool :=
  (p.tail == q.tail && p.head == q.head) || (p.tail == q.head && p.head == q.tail)

/-- The segment ends at the cluster. -/
def touches (p : Placed α) (cluster : Nat) : Bool := p.tail == cluster || p.head == cluster

/-- Tells segments that are kept from those that are dropped, after the kept ones of `before`. -/
def sift (before : List (Placed α)) : List (Placed α) → List (Placed α) × List DroppedSegment
  | [] => ([], [])
  | p :: rest =>
    if p.tail = p.head then
      let (kept, dropped) := sift before rest
      (kept, .degenerate p.segment.id :: dropped)
    else match before.find? p.parallel with
      | some q =>
        let (kept, dropped) := sift before rest
        (kept, .duplicate p.segment.id q.segment.id :: dropped)
      | none =>
        let (kept, dropped) := sift (before ++ [p]) rest
        (p :: kept, dropped)

end Placed

variable {α : Type} [Scalar α]

/-- The two ends of every segment, in order. -/
def segmentEnds (segments : List (RoadSegment α)) : List (Vec α) :=
  segments.flatMap fun s => [s.start, s.stop]

/-- The segments between the clusters of their ends, which are listed two by two. -/
def placeSegments : List (RoadSegment α) → List Nat → List (Placed α)
  | s :: rest, a :: b :: ends => ⟨s, a, b⟩ :: placeSegments rest ends
  | _, _ => []

/-- The clusters that some segment ends at, in increasing order. -/
def touched (count : Nat) (kept : List (Placed α)) : List Nat :=
  (List.range count).filter fun c => kept.any fun p => p.touches c

/-- Makes a network of segments, or says which option is unusable. -/
def AssemblyOptions.assemble (o : AssemblyOptions α) (segments : List (RoadSegment α)) :
    Except (GraphError α) (Network α) :=
  if !Network.isTolerance o.mergeTolerance then .error (.invalidTolerance o.mergeTolerance)
  else match o.junctions.badRadius? with
    | some r => .error (.invalidRadius r)
    | none =>
      let clusters := clusterPoints o.mergeTolerance (segmentEnds segments)
      let (kept, dropped) := Placed.sift [] (placeSegments segments clusters.assignment)
      let used := touched clusters.centroids.length kept
      let places := used.map fun c => (clusters.centroids.getD c .zero, o.elevation)
      let edges := kept.map fun p =>
        ⟨used.idxOf p.tail, used.idxOf p.head, p.segment.heading, p.segment.styleClass, p.segment.id⟩
      .ok (.ofParts o.name o.mergeTolerance o.junctions places edges dropped)

/-- Makes a network of segments under the default options and the given tolerance. -/
def assemble (segments : List (RoadSegment α)) (tolerance : α) :
    Except (GraphError α) (Network α) :=
  { AssemblyOptions.default with mergeTolerance := tolerance : AssemblyOptions α }.assemble segments

end Roadworks
