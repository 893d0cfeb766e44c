import Roadworks.Plane.Vec
import Roadworks.Plane.Interval
/-!
Parametric curves of the plane and the curves that run beside them.
-/

namespace Roadworks

/-- A curve: its points, the range of its parameter and its derivative. -/
structure Curve (α : Type) where
  sample : α → Vec α
  bounds : Interval α
  derivative : α → Vec α

namespace Curve

variable {α : Type} [Scalar α]

/-- The curve through the given points, with the derivative taken as the slope over a
ten-thousandth of its range. -/
def ofSamples (sample : α → Vec α) (bounds : Interval α) : Curve α where
  sample := sample
  bounds := bounds
  derivative t :=
    let delta := bounds.length * 0.0001
    (sample (t + delta) - sample t) / delta

/-- The curve beside another one, to the left of it by `lateral` of the parameter. It keeps the
derivative of the other. -/
def offset (c : Curve α) (lateral : α → α) : Curve α where
  sample t := c.sample t + (c.derivative t).unit.rot90 * lateral t
  bounds := c.bounds
  derivative := c.derivative

end Curve

end Roadworks
