import Roadworks.Plane.Vec
import Roadworks.Plane.Interval
import Roadworks.Json.Decode
/-!
Points and intervals as documents.
-/

namespace Roadworks

variable {α : Type} [Scalar α]

namespace Vec

/-- A point as a document. -/
def toJson (p : Vec α) : Json α := .record [("x", .measure p.x), ("y", .measure p.y)]

/-- A point from a document. -/
def ofJson? (v : Json α) : Option (Vec α) := do
  let fields ← v.asRecord ["x", "y"]
  let x ← Json.required fields "x" Json.asMeasure
  let y ← Json.required fields "y" Json.asMeasure
  return ⟨x, y⟩

end Vec

namespace Interval

/-- An interval as a document. -/
def toJson (i : Interval α) : Json α := .record [("min", .measure i.min), ("max", .measure i.max)]

/-- An interval from a document. -/
def ofJson? (v : Json α) : Option (Interval α) := do
  let fields ← v.asRecord ["min", "max"]
  let min ← Json.required fields "min" Json.asMeasure
  let max ← Json.required fields "max" Json.asMeasure
  return ⟨min, max⟩

end Interval

end Roadworks
