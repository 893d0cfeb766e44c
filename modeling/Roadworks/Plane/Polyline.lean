import Roadworks.Plane.Curve
/-!
Paths of straight pieces, with the length along the path as parameter. A path can be trimmed at its
ends and offset sideways; at a bend the offset follows the mitre, so parallel edges keep their
width.
-/

namespace Roadworks

/-- A path through the given vertices. -/
structure Polyline (α : Type) where
  points : List (Vec α)
deriving BEq

/-- One straight piece of a path, with the part of its length that it takes. -/
structure Piece (α : Type) where
  range : Interval α
  start : Vec α
  stop : Vec α

/-- How a cross-section lies at a vertex: the direction in which offsets are measured, and the
factor that they are stretched by. -/
structure Frame (α : Type) where
  normal : Vec α
  scale : α

namespace Piece

variable {α : Type} [Scalar α]

/-- The direction of a piece. -/
def direction (p : Piece α) : Vec α := (p.stop - p.start).unit

/-- The point of a piece at the given length along the path, or the nearer end of it. -/
def sample (p : Piece α) (t : α) : Vec α :=
  p.start + (p.stop - p.start) * Scalar.clamp 0.0 1.0 ((t - p.range.min) / p.range.length)

end Piece

/-- The frame between an arriving and a leaving direction. A full reversal has no mitre, so its
section stands square on the leaving direction. The limit on the stretch is never below one. -/
def Frame.miter {α : Type} [Scalar α] (arriving leaving : Vec α) (limit : α) : Frame α :=
  let sum := arriving + leaving
  if sum.norm2 < 1e-12 then ⟨leaving.rot90, 1.0⟩
  else
    let t := sum.unit
    ⟨t.rot90, Scalar.min (1.0 / t.dot leaving) (Scalar.max limit 1.0)⟩

namespace Polyline

variable {α : Type} [Scalar α]

/-- Vertices nearer to each other than this count as one. -/
def vertexGap : α := 1e-9

/-- The points without those that coincide with the one kept before them, the last of which is
`last`. -/
def keepApart (last : Vec α) : List (Vec α) → List (Vec α)
  | [] => []
  | p :: rest => if last.dist p < vertexGap then keepApart last rest else p :: keepApart p rest

/-- The path through the given points, without repeated ones. -/
def ofPoints : List (Vec α) → Polyline α
  | [] => ⟨[]⟩
  | p :: rest => ⟨p :: keepApart p rest⟩

/-- The path from one point straight to another. -/
def line (start stop : Vec α) : Polyline α := ofPoints [start, stop]

/-- The lengths of the path up to every vertex, of which the first is at `s`. -/
def lengthsFrom (s : α) : List (Vec α) → List α
  | [] => [s]
  | [_] => [s]
  | p :: q :: rest => s :: lengthsFrom (s + p.dist q) (q :: rest)

/-- The lengths of the path up to every vertex. -/
def lengths (p : Polyline α) : List α := lengthsFrom 0.0 p.points

/-- The length of the whole path. -/
def length (p : Polyline α) : α := p.lengths.getLastD 0.0

/-- The path has less than two vertices. -/
def isDegenerate (p : Polyline α) : Bool := p.points.length < 2

/-- The straight pieces of a path whose first vertex is at `s`. -/
def piecesFrom (s : α) : List (Vec α) → List (Piece α)
  | [] => []
  | [_] => []
  | p :: q :: rest => ⟨⟨s, s + p.dist q⟩, p, q⟩ :: piecesFrom (s + p.dist q) (q :: rest)

/-- The straight pieces of the path in order. -/
def pieces (p : Polyline α) : List (Piece α) := piecesFrom 0.0 p.points

/-- The piece at a length along the path: the last one that starts no later, or the first. -/
def pieceAt (p : Polyline α) (t : α) : Option (Piece α) :=
  let passed := (p.lengths.takeWhile fun s => decide (s ≤ t)).length
  p.pieces[min (passed - 1) (p.pieces.length - 1)]?

/-- The point at a length along the path. Beyond an end it is the end. -/
def sample (p : Polyline α) (t : α) : Vec α :=
  match p.pieceAt t with
  | some piece => piece.sample t
  | none => p.points.headD .zero

/-- The direction at a length along the path. -/
def derivative (p : Polyline α) (t : α) : Vec α :=
  match p.pieceAt t with
  | some piece => piece.direction
  | none => ⟨1.0, 0.0⟩

/-- The path as a curve over its length. -/
def toCurve (p : Polyline α) : Curve α := ⟨p.sample, ⟨0.0, p.length⟩, p.derivative⟩

/-- The path without `start` at its beginning and `stop` at its end, if something remains. -/
def trimmed (p : Polyline α) (start stop : α) : Option (Polyline α) :=
  let range : Interval α := ⟨Scalar.max 0.0 start, p.length - Scalar.max 0.0 stop⟩
  if p.isDegenerate ∨ range.length ≤ vertexGap then none
  else
    let interior := (p.points.zip p.lengths).filter fun (_, s) => range.min < s ∧ s < range.max
    some (ofPoints (p.sample range.min :: interior.map (·.1) ++ [p.sample range.max]))

/-- The frames at all vertices. The ends are mitred against a direction of arrival or departure
where one is given, and stand square otherwise. -/
def frames (p : Polyline α) (arrival departure : Option (Vec α)) (limit : α) : List (Frame α) :=
  let tangents := p.pieces.map Piece.direction
  match tangents with
  | [] => []
  | first :: rest =>
    let last := (first :: rest).getLastD first
    List.zipWith (fun a b => .miter a b limit)
      (arrival.getD first :: tangents) (tangents ++ [departure.getD last])

/-- The vertices moved to the left by `offset` along their frames. -/
def offsetPoints (p : Polyline α) (frames : List (Frame α)) (offset : α) : List (Vec α) :=
  List.zipWith (fun v frame => v + frame.normal * (offset * frame.scale)) p.points frames

/-! ### Every length has a piece -/

theorem length_lengthsFrom (s : α) (points : List (Vec α)) :
    (lengthsFrom s points).length = max points.length 1 := by
  fun_induction lengthsFrom s points with
  | case1 => rfl
  | case2 => rfl
  | case3 s p q rest ih =>
      simp only [List.length_cons] at ih ⊢
      omega

theorem length_piecesFrom (s : α) (points : List (Vec α)) :
    (piecesFrom s points).length = points.length - 1 := by
  fun_induction piecesFrom s points with
  | case1 => rfl
  | case2 => rfl
  | case3 s p q rest ih =>
      simp only [List.length_cons] at ih ⊢
      omega

theorem length_pieces (p : Polyline α) : p.pieces.length = p.points.length - 1 :=
  length_piecesFrom 0.0 p.points

/-- A path with two vertices has a piece at every length, also at what is not a number. -/
theorem pieceAt_eq_none_iff (p : Polyline α) (t : α) : p.pieceAt t = none ↔ p.isDegenerate := by
  have hpieces := p.length_pieces
  rw [pieceAt, isDegenerate, List.getElem?_eq_none_iff, hpieces, decide_eq_true_eq]
  omega

end Polyline

end Roadworks
