/-!
The numbers that positions, angles, lengths and weights are made of. Everything geometric in this
library is written once over `Scalar`, so the same definitions run on doubles and can be read over
exact reals. The class asks for no laws: a statement about every `Scalar` holds whatever the
arithmetic returns.
-/

namespace Roadworks

/-- Numbers with the operations of planar geometry. -/
class Scalar (α : Type) extends
    Add α, Sub α, Mul α, Div α, Neg α, LT α, LE α, BEq α, OfScientific α, NatCast α where
  decLt (a b : α) : Decidable (a < b)
  decLe (a b : α) : Decidable (a ≤ b)
  /-- The ratio of a circle's circumference to its diameter. -/
  pi : α
  sqrt : α → α
  sin : α → α
  cos : α → α
  /-- The angle of the vector whose height is the first argument and whose width is the second. -/
  atan2 : α → α → α
  acos : α → α
  /-- The remainder of division toward zero, which has the sign of the first argument. -/
  rem : α → α → α
  /-- The largest integer that is not above the number. -/
  floor : α → Int
  /-- The number is neither infinite nor the result of a meaningless operation. -/
  isFinite : α → Bool
  /-- The number rounded to single precision. -/
  toSingle : α → α
  /-- The largest representable number below a positive one, where there is such a thing. -/
  below : α → α

namespace Scalar

variable {α : Type} [Scalar α]

instance (a b : α) : Decidable (a < b) := decLt a b

instance (a b : α) : Decidable (a ≤ b) := decLe a b

/-- A number that differs from itself is no number at all. -/
def isNaN (x : α) : Bool := !(x == x)

/-- A full turn in radians. -/
def tau : α := 2.0 * pi

/-- Converts degrees to radians. -/
def radians (degrees : α) : α := degrees * (pi / 180.0)

/-- The larger of two numbers; where one of them is not a number, the other. -/
def max (x y : α) : α := if isNaN x then y else if x < y then y else x

/-- The smaller of two numbers; where one of them is not a number, the other. -/
def min (x y : α) : α := if isNaN x then y else if y < x then y else x

/-- The number moved to the nearer bound where it lies outside `[lo, hi]`. -/
def clamp (lo hi x : α) : α := if x < lo then lo else if hi < x then hi else x

/-- The remainder that is not negative, for a positive `y`. -/
def modulo (x y : α) : α := if rem x y < 0.0 then rem x y + y else rem x y

/-- The sum of a list. The start is the negative zero, which no addition can show except where
there is nothing to add. -/
def sum (xs : List α) : α := xs.foldl (· + ·) (-0.0)

end Scalar

end Roadworks
