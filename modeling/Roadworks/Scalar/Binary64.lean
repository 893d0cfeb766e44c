import Roadworks.Scalar
/-!
Doubles as scalars. Sum, difference, product, quotient and root are core's correctly rounded
operations. Remainder, floor and single precision are computed here exactly from the mantissa and
the exponent, so every one of them can be evaluated in a proof; only the transcendental functions
are taken as given, and those are pinned at zero.
-/

namespace Roadworks.Binary64

open Float.Model (UnpackedFloat Format)

/-- The double nearest to `±m · 2^e`. -/
def ofParts (s : UnpackedFloat.Sign) (m : Nat) (e : Int) : Float :=
  .ofModel (.pack (UnpackedFloat.round .binary64 s m e))

/-- The largest integer that is not above `x`; an infinity counts as its bound `2^1024` and what
is not a number as zero. -/
def floor (x : Float) : Int :=
  match x.toModel.unpack with
  | .notANumber => 0
  | .infinity .positive => Int.pow 2 1024
  | .infinity .negative => -Int.pow 2 1024
  | .zero _ => 0
  | .finite .positive m e _ => ((m : Int) <<< e.toNat) >>> (-e).toNat
  | .finite .negative m e _ => (-(m : Int) <<< e.toNat) >>> (-e).toNat

/-- The exact remainder of `x` by `y` with the sign of `x`. Both are read as whole multiples of
the smaller of their two units, so the remainder is one of integers. -/
def rem (x y : Float) : Float :=
  match x.toModel.unpack, y.toModel.unpack with
  | .notANumber, _ | _, .notANumber | .infinity _, _ | _, .zero _ => 0.0 / 0.0
  | _, .infinity _ | .zero _, _ => x
  | .finite s m e _, .finite _ n f _ =>
    let unit := min e f
    let r := (m <<< (e - unit).toNat) % (n <<< (f - unit).toNat)
    ofParts s r unit

/-- The double of the value that is nearest to `x` in single precision. -/
def toSingle (x : Float) : Float :=
  match x.toModel.unpack with
  | .finite s m e _ =>
    match UnpackedFloat.unpack .binary32 (UnpackedFloat.pack .binary32 (.round .binary32 s m e)) with
    | .finite s m e _ => ofParts s m e
    | rounded => .ofModel (.pack rounded)
  | _ => x

/-- The next smaller double, for a positive one. -/
def below (x : Float) : Float := .ofBits (x.toBits - 1)

/-- The sine; a zero is its own sine. -/
def sin (x : Float) : Float := if x == 0.0 then x else x.sin

/-- The cosine; that of a zero is one. -/
def cos (x : Float) : Float := if x == 0.0 then 1.0 else x.cos

/-- The angle of a vector; one that points along the first axis has its height, a zero, for it. -/
def atan2 (y x : Float) : Float := if y == 0.0 && 0.0 < x then y else y.atan2 x

instance : Scalar Float where
  natCast := Float.ofNat
  decLt a b := Float.decLt a b
  decLe a b := Float.decLe a b
  pi := 3.141592653589793
  sqrt := Float.sqrt
  sin := sin
  cos := cos
  atan2 := atan2
  acos := Float.acos
  rem := rem
  floor := floor
  isFinite := Float.isFinite
  toSingle := toSingle
  below := below

end Roadworks.Binary64
