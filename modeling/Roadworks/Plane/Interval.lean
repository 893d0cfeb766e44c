import Roadworks.Scalar
import Roadworks.Decimal.Layout
/-!
Intervals of the number line.
-/

namespace Roadworks

/-- The numbers from `min` to `max`. -/
structure Interval (α : Type) where
  min : α
  max : α
deriving BEq

namespace Interval

variable {α : Type} [Scalar α]

/-- How far the end lies from the start. -/
def length (i : Interval α) : α := i.max - i.min

/-- The middle. -/
def midpoint (i : Interval α) : α := (i.min + i.max) / (1.0 + 1.0)

/-- What two intervals have in common, if that is more than a point. -/
def intersect (i j : Interval α) : Option (Interval α) :=
  let lo := Scalar.max i.min j.min
  let hi := Scalar.min i.max j.max
  if lo < hi then some ⟨lo, hi⟩ else none

/-- The text of an interval. -/
def text (i : Interval Float) : String :=
  let layout := Decimal.Layout.literal
  "Interval(" ++ layout.render i.min ++ ", " ++ layout.render i.max ++ ")"

end Interval

end Roadworks
