import Roadworks.Scalar
/-!
Reading decimal numbers: a whole part, a fraction and a power of ten, taken together to the one
number they stand for.
-/

namespace Roadworks.Decimal

/-- The characters `0` to `9`. -/
def isDigit (c : Char) : Bool := '0' ≤ c && c ≤ '9'

/-- The value of a run of digits. -/
def ofDigits (cs : List Char) : Nat := cs.foldl (fun n c => 10 * n + (c.toNat - 48)) 0

/-- A run of digits with an optional sign before it, and what follows. -/
def readExponent (cs : List Char) : Option (Int × List Char) :=
  let (negative, cs) := match cs with
    | '+' :: cs => (false, cs)
    | '-' :: cs => (true, cs)
    | cs => (false, cs)
  match cs.takeWhile isDigit with
  | [] => none
  | ds => some (if negative then -(ofDigits ds : Int) else ofDigits ds, cs.dropWhile isDigit)

/-- The number `whole.fraction · 10^exponent` with the given sign. -/
def value {α : Type} [Scalar α] (negative : Bool) (whole fraction : List Char) (exponent : Int) : α :=
  let e := exponent - fraction.length
  let magnitude : α := OfScientific.ofScientific (ofDigits (whole ++ fraction)) (e < 0) e.natAbs
  if negative then -magnitude else magnitude

/-- The words for what is not a finite number, in any case. -/
def special {α : Type} [Scalar α] (cs : List Char) : Option α :=
  match cs.map Char.toLower with
  | ['i', 'n', 'f'] | ['i', 'n', 'f', 'i', 'n', 'i', 't', 'y'] => some (1.0 / 0.0)
  | ['n', 'a', 'n'] => some (0.0 / 0.0)
  | _ => none

/-- Reads a whole text as a number without a sign: digits around an optional point, at least one
of them, and an optional exponent; or one of the words for what is not finite. -/
def readUnsigned {α : Type} [Scalar α] (negative : Bool) (cs : List Char) : Option α :=
  let whole := cs.takeWhile isDigit
  let rest := cs.dropWhile isDigit
  let (fraction, rest) := match rest with
    | '.' :: rest => (rest.takeWhile isDigit, rest.dropWhile isDigit)
    | rest => ([], rest)
  if whole.isEmpty && fraction.isEmpty then
    (special cs).map fun x => if negative then -x else x
  else match rest with
    | [] => some (value negative whole fraction 0)
    | c :: rest =>
      if c = 'e' ∨ c = 'E' then
        match readExponent rest with
        | some (e, []) => some (value negative whole fraction e)
        | _ => none
      else none

/-- Reads a whole text as a number with an optional sign. -/
def read {α : Type} [Scalar α] (cs : List Char) : Option α :=
  match cs with
  | '+' :: cs => readUnsigned false cs
  | '-' :: cs => readUnsigned true cs
  | cs => readUnsigned false cs

end Roadworks.Decimal
