import Roadworks.Decimal.Shortest
/-!
How a double is written. All forms use the shortest digits that read back; they differ in where
the positional form ends, in what marks a whole number, and in the sign of a positive exponent.
-/

namespace Roadworks

namespace Decimal

open Float.Model (UnpackedFloat)

/-- The decisions that tell one written form of a number from another. -/
structure Layout where
  /-- The digit exponents that are written positionally: from the first to the second. -/
  positional : Option (Int × Int)
  /-- A whole number ends in `.0` in the positional form. -/
  pointed : Bool
  /-- A positive exponent carries its sign. -/
  signed : Bool
  /-- Of two shortest decimals at the same distance the upper is taken, given the lower. -/
  tie : Nat → Bool

/-- Numbers in messages: always positional, and whole numbers without a point. -/
def Layout.message : Layout := ⟨none, false, false, fun _ => true⟩

/-- Numbers that show their kind: positional from `10^-4` up to `10^16`, with a point. -/
def Layout.literal : Layout := ⟨some (-4, 15), true, false, fun _ => true⟩

/-- Numbers in documents: positional from `10^-5` up to `10^16`, with a point; an exponent has
its sign. -/
def Layout.document : Layout := ⟨some (-5, 15), true, true, fun lower => lower % 2 = 1⟩

/-- The digits with the point where it belongs. -/
def Layout.positionalText (l : Layout) (d : Decimal) : List Char :=
  let ds := d.text
  if 0 ≤ d.exponent then
    ds ++ List.replicate d.exponent.toNat '0' ++ if l.pointed then ['.', '0'] else []
  else
    let places := (-d.exponent).toNat
    if places < ds.length then
      ds.take (ds.length - places) ++ '.' :: ds.drop (ds.length - places)
    else
      '0' :: '.' :: List.replicate (places - ds.length) '0' ++ ds

/-- One digit, the others after a point, and the exponent. -/
def Layout.exponentText (l : Layout) (d : Decimal) (top : Int) : List Char :=
  let mantissa := match d.text with
    | [] => ['0']
    | [first] => [first]
    | first :: rest => first :: '.' :: rest
  let sign := if top < 0 then ['-'] else if l.signed then ['+'] else []
  mantissa ++ 'e' :: sign ++ Nat.toDigits 10 top.natAbs

/-- The text of a positive decimal. -/
def Layout.magnitude (l : Layout) (d : Decimal) : List Char :=
  let top := (width d.digits : Int) - 1 + d.exponent
  match l.positional with
  | none => l.positionalText d
  | some (lo, hi) =>
    if lo ≤ top ∧ top ≤ hi then l.positionalText d else l.exponentText d top

/-- The text of a double. -/
def Layout.render (l : Layout) (x : Float) : String :=
  match x.toModel.unpack with
  | .notANumber => "NaN"
  | .infinity .positive => "inf"
  | .infinity .negative => "-inf"
  | .zero .positive => if l.pointed then "0.0" else "0"
  | .zero .negative => if l.pointed then "-0.0" else "-0"
  | .finite .positive m q _ => .ofList (l.magnitude (shortest l.tie m q))
  | .finite .negative m q _ => .ofList ('-' :: l.magnitude (shortest l.tie m q))

example : Layout.message.render 10.0 = "10" ∧ Layout.message.render 1e17 = "100000000000000000" ∧
    Layout.message.render 1.5e-7 = "0.00000015" ∧ Layout.message.render (-0.0) = "-0" := by
  decide +kernel

example : Layout.literal.render 10.0 = "10.0" ∧ Layout.literal.render 1e16 = "1e16" ∧
    Layout.literal.render 1e-4 = "0.0001" ∧ Layout.literal.render 1.5e-5 = "1.5e-5" := by
  decide +kernel

example : Layout.document.render 10.0 = "10.0" ∧ Layout.document.render 1e16 = "1e+16" ∧
    Layout.document.render 1.5e-5 = "0.000015" ∧ Layout.document.render 1.5e-6 = "1.5e-6" := by
  decide +kernel

/-- The quotient rounded to the nearest whole number, a half to the even one. -/
def roundDiv (n d : Nat) : Nat :=
  let q := n / d
  let r := 2 * (n % d)
  if d < r ∨ (r = d ∧ q % 2 = 1) then q + 1 else q

/-- The text of `tenths / 10`. -/
def tenthsText (tenths : Nat) : String :=
  .ofList (Nat.toDigits 10 (tenths / 10) ++ '.' :: Nat.toDigits 10 (tenths % 10))

/-- The text of a double rounded to one decimal place from its exact value. -/
def oneDecimal (x : Float) : String :=
  match x.toModel.unpack with
  | .notANumber => "NaN"
  | .infinity .positive => "inf"
  | .infinity .negative => "-inf"
  | .zero .positive => "0.0"
  | .zero .negative => "-0.0"
  | .finite .positive m q _ => tenthsText (roundDiv (10 * m <<< q.toNat) (1 <<< (-q).toNat))
  | .finite .negative m q _ => "-" ++ tenthsText (roundDiv (10 * m <<< q.toNat) (1 <<< (-q).toNat))

example : oneDecimal 0.25 = "0.2" ∧ oneDecimal 0.75 = "0.8" ∧ oneDecimal (-0.04) = "-0.0" := by
  decide +kernel

end Decimal

end Roadworks
