import Roadworks.Plane.Vec
/-!
What kind of intersection the roads at a node form. Only the directions in which they leave count.
-/

namespace Roadworks

/-- The kinds of intersections. -/
inductive IntersectionType where
  /-- One road that goes through. -/
  | pass
  | threeWay
  | fourWay
  /-- Roads spread evenly around an island. -/
  | roundabout
deriving DecidableEq

namespace IntersectionType

/-- The name of a kind in documents. -/
def name : IntersectionType → String
  | .pass => "pass"
  | .threeWay => "t3way"
  | .fourWay => "4way"
  | .roundabout => "roundabout"

/-- All kinds by name. -/
def byName : List (String × IntersectionType) :=
  [.pass, .threeWay, .fourWay, .roundabout].map fun k => (k.name, k)

/-- Every kind is known by its name. -/
theorem lookup_name (k : IntersectionType) : byName.lookup k.name = some k := by
  cases k <;> rfl

/-- The kind needs a surface of its own. -/
def isJunction (k : IntersectionType) : Bool := k != .pass

end IntersectionType

/-- How intersections are told apart and how large they are. -/
structure JunctionRules (α : Type) where
  /-- What the half-width of the widest road is enlarged by. -/
  intersectionRadius : α
  /-- The radius of the circulating lane's centre; without it there are no roundabouts. -/
  roundaboutRadius : Option α
  /-- How many roads a roundabout has at least. It never has less than three. -/
  minRoundaboutDegree : UInt64
  /-- The sharpest bend of a road that still goes through, in degrees. -/
  passMaxBend : α
  /-- How far, in degrees, a gap between two roads of a roundabout may be from an even share. -/
  circularTolerance : α

namespace JunctionRules

variable {α : Type} [Scalar α]

/-- The rules where nothing is said. -/
def default : JunctionRules α where
  intersectionRadius := 2.0
  roundaboutRadius := none
  minRoundaboutDegree := 4
  passMaxBend := 120.0
  circularTolerance := 20.0

/-- The radii that are given. -/
def radii (r : JunctionRules α) : List α := r.intersectionRadius :: r.roundaboutRadius.toList

/-- The first radius that is negative or not finite. -/
def badRadius? (r : JunctionRules α) : Option α :=
  r.radii.find? fun x => !Scalar.isFinite x || decide (x < 0.0)

/-- The radius of an intersection of a kind. -/
def radiusFor (r : JunctionRules α) : IntersectionType → α
  | .roundabout => r.roundaboutRadius.getD r.intersectionRadius
  | _ => r.intersectionRadius

/-- How far a number is from zero. -/
def magnitude (x : α) : α := if x < 0.0 then -x else x

/-- The gaps between neighbouring headings of a sorted list. -/
def gaps : List α → List α
  | a :: b :: rest => (b - a) :: gaps (b :: rest)
  | _ => []

/-- The directions are spread evenly: every gap, also that across heading zero, is an even share
of the full turn up to the tolerance. -/
def isCircular (r : JunctionRules α) (approaches : List (Vec α)) : Bool :=
  let headings := (approaches.map Vec.heading).mergeSort fun a b => decide (a ≤ b)
  let even := Scalar.tau / (Nat.cast headings.length : α)
  let wrap := headings.headD 0.0 + Scalar.tau - headings.getLastD 0.0
  (gaps headings ++ [wrap]).all fun gap =>
    decide (magnitude (gap - even) ≤ Scalar.radians r.circularTolerance)

/-- Two directions leave a node as one road: it bends no more than the rules allow. -/
def isPass (r : JunctionRules α) (v w : Vec α) : Bool :=
  decide (Scalar.pi - v.angleTo w ≤ Scalar.radians r.passMaxBend)

/-- The kind of intersection of roads that leave in the given directions, if there is one: none for
dead ends, for a road that bends too much and for five or more roads that are no roundabout. -/
def classify (r : JunctionRules α) (approaches : List (Vec α)) : Option IntersectionType :=
  if approaches.length < 2 then none
  else if r.roundaboutRadius.isSome ∧ max r.minRoundaboutDegree.toNat 3 ≤ approaches.length
      ∧ r.isCircular approaches then some .roundabout
  else match approaches with
    | [v, w] => if r.isPass v w then some .pass else none
    | [_, _, _] => some .threeWay
    | [_, _, _, _] => some .fourWay
    | _ => none

end JunctionRules

end Roadworks
