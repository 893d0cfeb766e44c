import Roadworks.Network.Intersection
import Roadworks.Surface.Mesh
/-!
Surfaces over intersections: a disc, or a ring around an island.
-/

namespace Roadworks

/-- The size of a patch. -/
structure PatchShape (α : Type) where
  radius : α
  /-- The radius of the island of a roundabout. -/
  island : Option α

/-- The surface over a node. -/
structure JunctionSurface (α : Type) where
  node : Nat
  kind : Option IntersectionType
  centre : Vertex α
  radius : α
  islandRadius : Option α
  /-- The paved part. -/
  surface : Mesh α
  /-- The raised part in the middle. -/
  island : Mesh α

namespace Patch

variable {α : Type} [Scalar α]

/-- The point number `i` of `sides` on a circle, counterclockwise from the first axis. -/
def ringPoint (centre : Vec α) (radius z : α) (sides i : Nat) : Vertex α :=
  (centre + Vec.ofHeading (Scalar.tau * (Nat.cast i : α) / (Nat.cast sides : α)) * radius).lift z

/-- The points of a circle. -/
def ring (centre : Vec α) (radius z : α) (sides : Nat) : List (Vertex α) :=
  (List.range sides).map (ringPoint centre radius z sides)

/-- A level disc. -/
def disc (centre : Vec α) (radius z : α) (sides : Nat) : Mesh α :=
  Mesh.empty.pushFan (centre.lift z) (ring centre radius z sides) Mesh.upward

/-- A level ring between two radii. -/
def annulus (centre : Vec α) (inner outer z : α) (sides : Nat) : Mesh α :=
  (List.range sides).foldl (fun m i =>
    let j := (i + 1) % sides
    m.pushQuad (ringPoint centre inner z sides i) (ringPoint centre outer z sides i)
      (ringPoint centre outer z sides j) (ringPoint centre inner z sides j) Mesh.upward) .empty

/-- The surface over a node at elevation `z`. -/
def build (node : Nat) (kind : Option IntersectionType) (centre : Vec α) (z : α)
    (shape : PatchShape α) (islandHeight : α) (sides : Nat) : JunctionSurface α where
  node := node
  kind := kind
  centre := centre.lift z
  radius := shape.radius
  islandRadius := shape.island
  surface := match shape.island with
    | some island => annulus centre island shape.radius z sides
    | none => disc centre shape.radius z sides
  island := match shape.island with
    | some island => disc centre island (z + islandHeight) sides
    | none => .empty

end Patch

end Roadworks
