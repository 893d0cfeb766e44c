import Roadworks.Scalar
/-!
Documents as trees. A number without point and exponent is kept as an integer, so that a count can
be told from a measure; a string whose escapes spell no text is kept as `none`, because a reader
that does not look at it does not mind it.
-/

namespace Roadworks

/-- A value of the interchange format, with its measures in `α`. -/
inductive Json (α : Type) where
  | null
  | bool (b : Bool)
  | integer (n : Int)
  | real (x : α)
  | string (s : Option String)
  | array (items : List (Json α))
  | object (fields : List (Option String × Json α))
deriving Inhabited

namespace Json

variable {α : Type}

/-- A string value. -/
def text (s : String) : Json α := .string (some s)

/-- An object with the given fields in order. -/
def record (fields : List (String × Json α)) : Json α :=
  .object (fields.map fun (name, v) => (some name, v))

/-- A measure; what is not finite has no number in a document and becomes `null`. -/
def measure [Scalar α] (x : α) : Json α := if Scalar.isFinite x then .real x else .null

/-- A count. -/
def count (n : Nat) : Json α := .integer n

/-- A value that may be missing. -/
def nullable {β : Type} (encode : β → Json α) : Option β → Json α
  | none => .null
  | some v => encode v

end Json

end Roadworks
