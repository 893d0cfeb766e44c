import Roadworks.Network.Basic
import Roadworks.Surface.Sweep
import Roadworks.Surface.Marking
import Roadworks.Surface.Patch
/-!
The surfaces of a whole network: ribbons, faces, painted lines and curb edges of every road, and a
patch over every intersection. What is wrong with a single road or node becomes a warning, and the
rest is still built; only a network that is not sound gives no surfaces.
-/

namespace Roadworks

/-- How surfaces are built. -/
structure BuildOptions (α : Type) where
  /-- How much a mitre may stretch the cross-section at most. -/
  miterLimit : α
  /-- How many sides a circle has. -/
  arcSegments : UInt64
  /-- How high painted lines lie above the road. -/
  markingLift : α
  /-- How high the islands of roundabouts lie above the road. -/
  islandHeight : α

/-- Something that needed a fallback, or that could not be built. -/
inductive BuildWarning (α : Type) where
  | missingStyle (segment : Nat) (styleClass : String)
  | invalidStyle (segment : Nat) (styleClass : String) (fault : ProfileFault)
  | segmentTooShort (segment : Nat) (length : α)
  | unclassifiedJunction (node degree : Nat)
  | degenerateIsland (node : Nat)

/-- The surface of one band of a road. -/
structure BandSurface (α : Type) where
  kind : BandKind
  mesh : Mesh α

/-- What is built for one road. -/
structure RoadSurface (α : Type) where
  segment : Nat
  styleClass : String
  /-- The middle of the road between the patches at its ends. -/
  centreline : List (Vertex α)
  /-- The surfaces of the bands from left to right. -/
  surfaces : List (BandSurface α)
  markings : List (Marking α)
  /-- The upper outer edges of the raised bands from left to right. -/
  curbLines : List (List (Vertex α))

/-- What is built for a network. -/
structure Geometry (α : Type) where
  roads : List (RoadSurface α)
  junctions : List (JunctionSurface α)
  warnings : List (BuildWarning α)

/-- A style in effect with the cross-section that it lays out. -/
structure Resolved (α : Type) where
  profile : StyleProfile α
  crossSection : CrossSection α

/-- A patch that a node gets. -/
structure SizedPatch (α : Type) where
  node : Nat
  kind : Option IntersectionType
  shape : PatchShape α

/-- What finds a style by its name. -/
abbrev StyleResolver (α : Type) := String → Option (StyleProfile α)

variable {α : Type} [Scalar α]

/-- The options where nothing is said. -/
def BuildOptions.default : BuildOptions α := ⟨4.0, 32, 0.005, 0.15⟩

/-- All surfaces in one mesh: the bands of the roads in order, then the patches and their islands. -/
def Geometry.mergedSurface (g : Geometry α) : Mesh α :=
  let bands := g.roads.flatMap fun r => r.surfaces.map (·.mesh)
  let patches := g.junctions.flatMap fun j => [j.surface, j.island]
  (bands ++ patches).foldl Mesh.append .empty

/-- The number of painted rectangles. -/
def Geometry.markingCount (g : Geometry α) : Nat :=
  (g.roads.map (·.markings.length)).foldl (· + ·) 0

/-- Nothing needed a fallback. -/
def Geometry.isComplete (g : Geometry α) : Bool := g.warnings.isEmpty

namespace Resolved

/-- A style with its cross-section. -/
def ofProfile (p : StyleProfile α) : Resolved α := ⟨p, .ofProfile p⟩

/-- The style of a road: what its name stands for, or the default where that is missing or
unbuildable. -/
def ofEdge (resolver : StyleResolver α) (e : Edge α) : Resolved α :=
  match resolver e.styleClass with
  | none => ofProfile .default
  | some p => match p.fault? with
    | none => ofProfile p
    | some _ => ofProfile .default

/-- The warning about the style of road number `i`, if the default stands in for it. -/
def warning? (resolver : StyleResolver α) (e : Edge α) (i : Nat) : Option (BuildWarning α) :=
  match resolver e.styleClass with
  | none => some (.missingStyle i e.styleClass)
  | some p => p.fault?.map (.invalidStyle i e.styleClass)

/-- How high the raised bands lie. -/
def curbHeight (r : Resolved α) : α := (r.profile.curb.map (·.height)).getD 0.0

end Resolved

namespace SizedPatch

/-- The node gets a patch: it is an intersection and no mere bend, or several roads meet there in no
known shape. -/
def isNeeded (kind : Option IntersectionType) (degree : Nat) : Bool :=
  match kind with
  | some k => k.isJunction
  | none => 2 ≤ degree

/-- The half-width of the widest road at a node. -/
def widest (styles : List (Resolved α)) (incident : List Nat) : α :=
  (incident.filterMap fun i => styles[i]?).foldl
    (fun w r => Scalar.max w r.crossSection.halfWidth) 0.0

/-- The radius that is left for the island of a roundabout. -/
def islandRoom (rules : JunctionRules α) (halfWidth : α) (kind : Option IntersectionType) :
    Option α :=
  match kind, rules.roundaboutRadius with
  | some .roundabout, some radius => some (radius - halfWidth)
  | _, _ => none

/-- The size of a patch: beyond the widest road by the radius of the rules, or, at a roundabout, the
lane around the island and half a road on both sides of it. -/
def shapeOf (rules : JunctionRules α) (halfWidth : α) (kind : Option IntersectionType) :
    PatchShape α :=
  match kind, rules.roundaboutRadius with
  | some .roundabout, some radius =>
    let island := radius - halfWidth
    ⟨radius + halfWidth, if 0.0 < island then some island else none⟩
  | _, _ => ⟨halfWidth + rules.intersectionRadius, none⟩

/-- The patch of a node, if it gets one. -/
def ofNode (n : Network α) (styles : List (Resolved α)) (v : Node α) (i : Nat) :
    Option (SizedPatch α) :=
  let kind := n.intersectionType i
  if isNeeded kind v.degree then some ⟨i, kind, shapeOf n.rules (widest styles v.incident) kind⟩
  else none

/-- The warnings about a node that gets a patch. -/
def warnings (n : Network α) (styles : List (Resolved α)) (v : Node α) (i : Nat) :
    List (BuildWarning α) :=
  let kind := n.intersectionType i
  if isNeeded kind v.degree then
    (if kind.isNone then [.unclassifiedJunction i v.degree] else []) ++
    match islandRoom n.rules (widest styles v.incident) kind with
    | some room => if room ≤ 0.0 then [.degenerateIsland i] else []
    | none => []
  else []

end SizedPatch

namespace RoadSurface

/-- How much a road is cut back at a node. -/
def trim (patches : List (SizedPatch α)) (node : Nat) : α :=
  ((patches.find? (·.node == node)).map (·.shape.radius)).getD 0.0

/-- The direction in which the other road leaves a node that one road goes through. -/
def passJoin (n : Network α) (node edge : Nat) : Option (Vec α) :=
  if n.intersectionType node = some .pass then do
    let v ← n.nodes[node]?
    let other ← v.incident.find? (· != edge)
    n.approach node other
  else none

/-- The elevation over a point between `a` and `b`, on the straight line between their elevations. -/
def elevationAt (a b : Vec α) (za zb : α) (p : Vec α) : α :=
  let along := b - a
  za + (zb - za) * Scalar.clamp 0.0 1.0 ((p - a).dot along / along.norm2)

/-- The surface of a band: its ribbon, and the face of a curb. -/
def bandSurface (sweep : SweepPath α) (curbHeight : α) (b : Band α) : BandSurface α :=
  let ribbon := sweep.ribbon b (if b.kind.isRaised then curbHeight else 0.0)
  ⟨b.kind, if b.kind = .curb then ribbon.append (sweep.face b curbHeight) else ribbon⟩

/-- What is swept along a path in a style. -/
def ofPath (o : BuildOptions α) (segment : Nat) (styleClass : String) (r : Resolved α)
    (sweep : SweepPath α) (elevation : Vec α → α) : RoadSurface α where
  segment := segment
  styleClass := styleClass
  centreline := sweep.edge 0.0 0.0
  surfaces := r.crossSection.bands.map (bandSurface sweep r.curbHeight)
  markings := r.crossSection.boundaries.flatMap
    (Marking.alongPath sweep.path r.profile.markings
      fun s => elevation (sweep.path.sample s) + o.markingLift)
  curbLines := (r.crossSection.bands.filter (·.kind.isRaised)).map fun b =>
    sweep.edge b.outer r.curbHeight

/-- What is built for road number `i`, or the warning that its patches leave nothing of it. There is
neither where the road does not lead from node to node. -/
def ofEdge? (o : BuildOptions α) (n : Network α) (styles : List (Resolved α))
    (patches : List (SizedPatch α)) (e : Edge α) (i : Nat) :
    Option (Except (BuildWarning α) (RoadSurface α)) := do
  let v ← n.nodes[e.tail]?
  let w ← n.nodes[e.head]?
  let style ← styles[i]?
  let a := v.position
  let b := w.position
  match (Polyline.line a b).trimmed (trim patches e.tail) (trim patches e.head) with
  | none => return .error (.segmentTooShort i (a.dist b))
  | some path =>
    let arrival := (passJoin n e.tail i).map fun d => ⟨-d.x, -d.y⟩
    let frames := path.frames arrival (passJoin n e.head i) o.miterLimit
    let elevation := elevationAt a b v.elevation w.elevation
    let sweep : SweepPath α := ⟨path, frames, path.points.map elevation⟩
    return .ok (ofPath o i e.styleClass style sweep elevation)

end RoadSurface

/-- The surfaces of a sound network. -/
def BuildOptions.surfaces (o : BuildOptions α) (n : Network α) (resolver : StyleResolver α) :
    Geometry α :=
  let styles := n.edges.map (Resolved.ofEdge resolver)
  let styleWarnings := n.edges.zipIdx.filterMap fun (e, i) => Resolved.warning? resolver e i
  let patches := n.nodes.zipIdx.filterMap fun (v, i) => SizedPatch.ofNode n styles v i
  let patchWarnings := n.nodes.zipIdx.flatMap fun (v, i) => SizedPatch.warnings n styles v i
  let outcomes := n.edges.zipIdx.filterMap fun (e, i) =>
    RoadSurface.ofEdge? o n styles patches e i
  { roads := outcomes.filterMap Except.toOption
    junctions := patches.filterMap fun p => n.nodes[p.node]?.map fun v =>
      Patch.build p.node p.kind v.position v.elevation p.shape o.islandHeight
        (max o.arcSegments.toNat 3)
    warnings := styleWarnings ++ patchWarnings ++ outcomes.filterMap fun
      | .error w => some w
      | .ok _ => none }

/-- Builds the surfaces of a network after checking it. -/
def BuildOptions.build (o : BuildOptions α) (n : Network α) (resolver : StyleResolver α) :
    Except (GraphError α) (Geometry α) :=
  n.validate.map fun _ => o.surfaces n resolver

/-- How the last build of a builder ended. -/
inductive BuildState (α : Type) where
  | unbuilt
  | built
  | partiallyBuilt (warnings : List (BuildWarning α))

/-- Options with the state that the last build left. -/
structure Builder (α : Type) where
  options : BuildOptions α
  state : BuildState α

namespace Builder

/-- A builder that has not built anything. -/
def new (o : BuildOptions α) : Builder α := ⟨o, .unbuilt⟩

/-- Builds a network and notes how that ended. -/
def build (b : Builder α) (n : Network α) (resolver : StyleResolver α) :
    Builder α × Except (GraphError α) (Geometry α) :=
  match b.options.build n resolver with
  | .error e => ({ b with state := .unbuilt }, .error e)
  | .ok g =>
    let state := if g.isComplete then .built else .partiallyBuilt g.warnings
    ({ b with state := state }, .ok g)

end Builder

end Roadworks
