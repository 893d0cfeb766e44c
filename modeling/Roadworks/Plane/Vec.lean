import Roadworks.Scalar
/-!
Points and vectors of the plane, and angles. Headings are measured in radians counterclockwise from
the first axis and kept in `[0, 2π)`.
-/

namespace Roadworks

/-- A point or a vector of the plane. -/
structure Vec (α : Type) where
  x : α
  y : α
deriving BEq

namespace Vec

variable {α : Type} [Scalar α]

instance : Add (Vec α) := ⟨fun v w => ⟨v.x + w.x, v.y + w.y⟩⟩

instance : Sub (Vec α) := ⟨fun v w => ⟨v.x - w.x, v.y - w.y⟩⟩

instance : HMul (Vec α) α (Vec α) := ⟨fun v k => ⟨v.x * k, v.y * k⟩⟩

instance : HDiv (Vec α) α (Vec α) := ⟨fun v k => ⟨v.x / k, v.y / k⟩⟩

/-- The origin, also the vector without length. -/
def zero : Vec α := ⟨0.0, 0.0⟩

/-- The inner product. -/
def dot (v w : Vec α) : α := v.x * w.x + v.y * w.y

/-- The square of the length. -/
def norm2 (v : Vec α) : α := v.x * v.x + v.y * v.y

/-- The length. -/
def norm (v : Vec α) : α := Scalar.sqrt v.norm2

/-- The distance from one point to another. -/
def dist (p q : Vec α) : α := (q - p).norm

/-- The vector of length one in the same direction. -/
def unit (v : Vec α) : Vec α := v * (1.0 / v.norm)

/-- The vector turned a quarter counterclockwise, which is the left-hand normal. -/
def rot90 (v : Vec α) : Vec α := ⟨-v.y, v.x⟩

/-- The vector of length one with the given heading. -/
def ofHeading (heading : α) : Vec α := ⟨Scalar.cos heading, Scalar.sin heading⟩

end Vec

/-- An angle brought into `[0, 2π)`. A tiny negative angle can round up to the full turn, which
counts as none. -/
def normalizeAngle {α : Type} [Scalar α] (angle : α) : α :=
  let a := Scalar.modulo angle Scalar.tau
  if Scalar.tau ≤ a then 0.0 else a

namespace Vec

variable {α : Type} [Scalar α]

/-- The heading of a vector. -/
def heading (v : Vec α) : α := normalizeAngle (Scalar.atan2 v.y v.x)

/-- The angle between two vectors, from `0` to `π`. -/
def angleTo (v w : Vec α) : α :=
  Scalar.acos (Scalar.clamp (-1.0) 1.0 (v.dot w / (v.norm * w.norm)))

end Vec

/-- A point in space as the vertex buffers hold it: every coordinate in single precision. -/
structure Vertex (α : Type) where
  x : α
  y : α
  z : α
deriving BEq

/-- The vertex with the given coordinates. -/
def Vertex.rounded {α : Type} [Scalar α] (x y z : α) : Vertex α :=
  ⟨Scalar.toSingle x, Scalar.toSingle y, Scalar.toSingle z⟩

/-- The vertex over a point of the plane at the given height. -/
def Vec.lift {α : Type} [Scalar α] (p : Vec α) (z : α) : Vertex α := .rounded p.x p.y z

end Roadworks
