import Roadworks.Plane.Polyline
import Roadworks.Section.CrossSection
/-!
Painted lines as rectangles along a path. Dashes repeat by length along the path, so their phase
carries on at bends; a dash is cut where a piece of the path ends.
-/

namespace Roadworks

/-- A painted rectangle, with all measures in single precision. -/
structure Marking (α : Type) where
  /-- The middle of the rectangle. -/
  position : Vertex α
  /-- The heading of its long side. -/
  heading : α
  length : α
  width : α
  role : BoundaryRole

namespace Marking

variable {α : Type} [Scalar α]

/-- The offsets at which a line is painted: two of them for a double line. -/
def offsets (b : Boundary α) (m : MarkingPattern α) : List α :=
  match b.style with
  | .none => []
  | .solid | .dashed => [b.offset]
  | .doubleSolid => [b.offset + m.lineWidth, b.offset - m.lineWidth]

/-- The dashes on a piece from `start` on. A piece takes at most `fuel` periods. -/
def dashesFrom (fuel : Nat) (dash period : α) (piece : Interval α) (start : α) :
    List (Interval α) :=
  match fuel with
  | 0 => []
  | fuel + 1 =>
    if start < piece.max then
      ((⟨start, start + dash⟩ : Interval α).intersect piece).toList ++
        dashesFrom fuel dash period piece (start + period)
    else []

/-- An integer as a number. -/
def ofInt (n : Int) : α := if n < 0 then -(Nat.cast n.natAbs : α) else Nat.cast n.natAbs

/-- The dashes on a piece: the periods begin at whole multiples along the path. -/
def dashes (m : MarkingPattern α) (piece : Interval α) : List (Interval α) :=
  let period := m.dashLength + m.gapLength
  let first := Scalar.floor (piece.min / period)
  let periods := Scalar.floor (piece.max / period) - first
  dashesFrom (2 * periods.toNat + 4) m.dashLength period piece (ofInt first * period)

/-- The painted parts of a piece. -/
def spans (b : Boundary α) (m : MarkingPattern α) (piece : Interval α) : List (Interval α) :=
  if b.style = .dashed then dashes m piece else [piece]

/-- The rectangle of a painted part. -/
def place (path : Polyline α) (b : Boundary α) (m : MarkingPattern α) (elevation : α → α)
    (offset : α) (span : Interval α) : Marking α :=
  let s := span.midpoint
  let line := path.toCurve.offset fun _ => offset
  { position := (line.sample s).lift (elevation s)
    heading := Scalar.toSingle (line.derivative s).heading
    length := Scalar.toSingle span.length
    width := Scalar.toSingle m.lineWidth
    role := b.role }

/-- The rectangles of one painted line along a path. -/
def alongPath (path : Polyline α) (m : MarkingPattern α) (elevation : α → α) (b : Boundary α) :
    List (Marking α) :=
  (offsets b m).flatMap fun offset =>
    path.pieces.flatMap fun piece =>
      (spans b m piece.range).map (place path b m elevation offset)

end Marking

end Roadworks
