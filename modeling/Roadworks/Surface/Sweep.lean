import Roadworks.Plane.Polyline
import Roadworks.Section.CrossSection
import Roadworks.Surface.Mesh
/-!
Sweeping a cross-section along a path: every offset of the section becomes an edge in space, and the
ribbon between two edges is the surface of a band.
-/

namespace Roadworks

/-- A path that is ready for sweeping: how the section lies at its vertices, and their elevations. -/
structure SweepPath (α : Type) where
  path : Polyline α
  frames : List (Frame α)
  elevations : List α

namespace SweepPath

variable {α : Type} [Scalar α]

/-- The edge at an offset to the left, lifted above the ground. -/
def edge (s : SweepPath α) (offset lift : α) : List (Vertex α) :=
  List.zipWith (fun p z => p.lift (z + lift)) (s.path.offsetPoints s.frames offset) s.elevations

/-- The quadrilaterals between two edges, one for every piece of the path. -/
def strip : List (Vertex α) → List (Vertex α) → Mesh α → Mesh α
  | l :: l' :: ls, r :: r' :: rs, m => strip (l' :: ls) (r' :: rs) (m.pushQuad l r r' l' Mesh.upward)
  | _, _, m => m

/-- The level surface of a band. -/
def ribbon (s : SweepPath α) (b : Band α) (lift : α) : Mesh α :=
  strip (s.edge b.left lift) (s.edge b.right lift) .empty

/-- The upright quadrilaterals between two edges of one offset, given the points of the path. On the
left side they face right, on the right side left. -/
def wall (onLeft : Bool) :
    List (Vec α) → List (Vertex α) → List (Vertex α) → Mesh α → Mesh α
  | p :: p' :: ps, b :: b' :: bs, t :: t' :: ts, m =>
    let n := (p' - p).unit.rot90 * (if onLeft then -1.0 else 1.0 : α)
    let normal : Vertex α := ⟨Scalar.toSingle n.x, Scalar.toSingle n.y, 0.0⟩
    let m := if onLeft then m.pushQuad b b' t' t normal else m.pushQuad b' b t t' normal
    wall onLeft (p' :: ps) (b' :: bs) (t' :: ts) m
  | _, _, _, m => m

/-- The upright face of a raised band on the side of the carriageway. -/
def face (s : SweepPath α) (b : Band α) (height : α) : Mesh α :=
  wall (decide (0.0 ≤ b.inner)) s.path.points (s.edge b.inner 0.0) (s.edge b.inner height) .empty

end SweepPath

end Roadworks
