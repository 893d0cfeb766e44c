/-!
The shortest decimal that reads back as a given binary number. Everything is done in whole
numbers: the reals that round to `m · 2^q` form an interval around it, and the grids of one, two,
three, … significant digits are tried until one of them has a point in that interval.
-/

namespace Roadworks

/-- The number `digits · 10^exponent`. -/
structure Decimal where
  digits : Nat
  exponent : Int
deriving DecidableEq, Repr

namespace Decimal

/-- How many decimal digits a number has. -/
def width (n : Nat) : Nat := (Nat.toDigits 10 n).length

/-- The significant digits, most significant first. -/
def text (d : Decimal) : List Char := Nat.toDigits 10 d.digits

/-- Takes away the zeros at the end, at most `fuel` of them. -/
def strip (fuel : Nat) (d : Decimal) : Decimal :=
  match fuel with
  | 0 => d
  | fuel + 1 =>
    if d.digits % 10 = 0 ∧ 0 < d.digits then strip fuel ⟨d.digits / 10, d.exponent + 1⟩ else d

/-- The reals that round to `m · 2^q`, as whole multiples `low … high` of a quarter unit, and
whether the two ends belong to them. A power of two has a nearer neighbour below than above. -/
structure Rounding where
  low : Nat
  high : Nat
  closed : Bool

/-- The rounding interval of a double: its ends round to the even mantissa. -/
def Rounding.ofBinary (m : Nat) (q : Int) : Rounding :=
  ⟨if m = Nat.pow 2 52 ∧ -1074 < q then 4 * m - 1 else 4 * m - 2, 4 * m + 2, m % 2 = 0⟩

/-- The number `n / d` lies in the interval, with quarters of the unit worth `scale`. -/
def Rounding.admits (r : Rounding) (scale n : Nat) : Bool :=
  if r.closed then r.low * scale ≤ n && n ≤ r.high * scale
  else r.low * scale < n && n < r.high * scale

/-- The power `10^k` is at most `m · 2^q`. -/
def reaches (m : Nat) (q k : Int) : Bool :=
  Nat.pow 10 k.toNat * Nat.pow 2 (-q).toNat ≤ m * Nat.pow 2 q.toNat * Nat.pow 10 (-k).toNat

/-- The decimal exponent of the first digit of `m · 2^q`: the largest power of ten that it reaches,
which a thousandfold of its binary logarithm gives to within one. -/
def leading (m : Nat) (q : Int) : Int :=
  let estimate := (m.log2 + q) * 301 / 1000
  ([estimate + 2, estimate + 1, estimate].find? (reaches m q)).getD (estimate - 1)

/-- The point of the grid `10^k` in the rounding interval of `m · 2^q` that is nearest to it, if
there is one. Of two equally near points the upper is taken if `up` says so of the lower. -/
def onGrid (up : Nat → Bool) (m : Nat) (q k : Int) : Option Decimal :=
  let r := Rounding.ofBinary m q
  let scale := Nat.pow 2 (q - 2).toNat * Nat.pow 10 (-k).toNat
  let unit := Nat.pow 2 (2 - q).toNat * Nat.pow 10 k.toNat
  let value := 4 * m * scale
  let lower := value / unit
  let below := value - lower * unit
  let above := (lower + 1) * unit - value
  match r.admits scale (lower * unit), r.admits scale ((lower + 1) * unit) with
  | false, false => none
  | true, false => some ⟨lower, k⟩
  | false, true => some ⟨lower + 1, k⟩
  | true, true =>
    if above < below ∨ (above = below ∧ up lower) then some ⟨lower + 1, k⟩ else some ⟨lower, k⟩

/-- The shortest decimal that reads back as the double `m · 2^q`, and of those the nearest.
Seventeen digits always suffice. -/
def shortest (up : Nat → Bool) (m : Nat) (q : Int) : Decimal :=
  let top := leading m q
  strip 400 (((List.range 17).findSome? fun (n : Nat) => onGrid up m q (top - n)).getD ⟨m, 0⟩)

end Decimal

end Roadworks
