import Roadworks.Json.Value
import Roadworks.Dictionary
/-!
Taking values of other types out of documents. A record may be given by name or as a list of its
fields in order; unknown names are passed over, a repeated one is refused. Integers and measures are
told apart only one way: a measure may be written as an integer.
-/

namespace Roadworks.Json

variable {α β : Type}

/-- A measure: any number that is finite. -/
def asMeasure [Scalar α] : Json α → Option α
  | .real x => if Scalar.isFinite x then some x else none
  | .integer n =>
    let magnitude : α := Nat.cast n.natAbs
    let x := if n < 0 then -magnitude else magnitude
    if Scalar.isFinite x then some x else none
  | _ => none

/-- An integer between two bounds. -/
def asInteger (lo hi : Int) : Json α → Option Int
  | .integer n => if lo ≤ n ∧ n ≤ hi then some n else none
  | _ => none

/-- A count of at most `bits` binary digits. -/
def asCount (bits : Nat) (v : Json α) : Option Nat :=
  (v.asInteger 0 (Int.pow 2 bits - 1)).map Int.toNat

/-- A string whose escapes spell a text. -/
def asText : Json α → Option String
  | .string s => s
  | _ => none

/-- The only character of a text. -/
def soleSymbol (s : String) : Option Char :=
  match s.toList with
  | [c] => some c
  | _ => none

/-- A value or nothing. -/
def asNullable (decode : Json α → Option β) : Json α → Option (Option β)
  | .null => some none
  | v => (decode v).map some

/-- A list, every item of which decodes. -/
def asList (decode : Json α → Option β) : Json α → Option (List β)
  | .array items => items.mapM decode
  | _ => none

/-- One of several names, alone or as the only field of an object that says nothing else. -/
def asTag (tags : List (String × β)) : Json α → Option β
  | .string (some s) => tags.lookup s
  | .object [(some s, .null)] => tags.lookup s
  | _ => none

/-- The fields of an object in order, every name of which is readable. -/
def asFields : Json α → Option (List (String × Json α))
  | .object fields => fields.mapM fun (name, v) => name.map (·, v)
  | _ => none

/-- A map, every key and value of which decodes. -/
def asDictionary {κ : Type} [LT κ] [DecidableLT κ] [Trans (α := κ) (· < ·) (· < ·) (· < ·)]
    (key : String → Option κ) (decode : Json α → Option β) (v : Json α) :
    Option (Dictionary κ β) := do
  let fields ← v.asFields
  let entries ← fields.mapM fun (name, v) => do return (← key name, ← decode v)
  return .ofList entries

/-- The fields of a record with the given names. A list of values stands for the first of them. -/
def asRecord (names : List String) : Json α → Option (List (String × Json α))
  | .array items => if items.length ≤ names.length then some (names.zip items) else none
  | v => do
    let fields ← v.asFields
    if names.all fun name => (fields.filter (·.1 == name)).length ≤ 1 then some fields else none

/-- The value of a field that must be there. -/
def required (fields : List (String × Json α)) (name : String) (decode : Json α → Option β) :
    Option β :=
  (fields.lookup name).bind decode

/-- The value of a field, or its default where it is missing. -/
def optional (fields : List (String × Json α)) (name : String) (decode : Json α → Option β)
    (default : β) : Option β :=
  match fields.lookup name with
  | none => some default
  | some v => decode v

end Roadworks.Json
