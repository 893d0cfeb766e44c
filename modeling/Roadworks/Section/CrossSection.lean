import Roadworks.Section.Profile
/-!
Cross-sections of roads: the bands that a style lays side by side, from the left edge at half the
width to the right edge at minus half of it, and the lines painted between them.
-/

namespace Roadworks

/-- What a band of a road is for. -/
inductive BandKind where
  | sidewalk
  | curb
  | shoulder
  | lane
  | median
deriving DecidableEq

/-- The band lies at the height of the curb. -/
def BandKind.isRaised : BandKind → Bool
  | .sidewalk | .curb => true
  | _ => false

/-- A strip of a road between two offsets from its middle; positive offsets lie to the left. -/
structure Band (α : Type) where
  kind : BandKind
  left : α
  right : α

/-- What a painted line separates. -/
inductive BoundaryRole where
  /-- The edge of the carriageway or of the median. -/
  | edge
  /-- Two lanes of one direction. -/
  | laneDivider
  /-- The two directions. -/
  | centre
deriving DecidableEq

/-- A line painted at an offset from the middle. -/
structure Boundary (α : Type) where
  offset : α
  role : BoundaryRole
  style : LineStyle

/-- The bands and lines of a road, both from left to right. -/
structure CrossSection (α : Type) where
  bands : List (Band α)
  boundaries : List (Boundary α)
  width : α

namespace Band

variable {α : Type} [Scalar α]

/-- The width of a band. -/
def width (b : Band α) : α := b.left - b.right

/-- How far an offset is from the middle. -/
def reach (offset : α) : α := if offset < 0.0 then -offset else offset

/-- The edge of the band that is farther from the middle. -/
def outer (b : Band α) : α := if reach b.right ≤ reach b.left then b.left else b.right

/-- The edge of the band that is nearer to the middle. -/
def inner (b : Band α) : α := if reach b.right ≤ reach b.left then b.right else b.left

/-- Lays strips side by side from an offset to the right. -/
def layOut (left : α) : List (BandKind × α) → List (Band α)
  | [] => []
  | (kind, w) :: rest => ⟨kind, left, left - w⟩ :: layOut (left - w) rest

theorem map_kind_layOut (left : α) (layout : List (BandKind × α)) :
    (layOut left layout).map (·.kind) = layout.map (·.1) := by
  induction layout generalizing left with
  | nil => rfl
  | cons strip layout ih => simp [layOut, ih]

end Band

namespace CrossSection

variable {α : Type} [Scalar α]

/-- The strips outside of the lanes, from the outside in. -/
def margin (p : StyleProfile α) : List (BandKind × α) :=
  (match p.curb with
    | none => []
    | some c => (if 0.0 < c.sidewalkWidth then [(.sidewalk, c.sidewalkWidth)] else []) ++
        [(.curb, c.width)]) ++
  p.shoulderWidth.toList.map fun w => (.shoulder, w)

/-- The number of lanes on the left side. -/
def leftLanes (p : StyleProfile α) : Nat := p.laneCount.toNat / 2

/-- All strips from left to right. -/
def strips (p : StyleProfile α) : List (BandKind × α) :=
  let lane : BandKind × α := (.lane, p.laneWidth)
  margin p ++ List.replicate (leftLanes p) lane ++
    p.medianWidth.toList.map (fun w => (.median, w)) ++
    List.replicate (p.laneCount.toNat - leftLanes p) lane ++ (margin p).reverse

/-- The lines at the edges of the lanes among `bands`, before which come `previous` and `seen` lanes.
A line between two lanes is the centre line when all lanes of the left side lie to its left. -/
def linesFrom (m : MarkingPattern α) (leftLanes seen : Nat) (previous : Option BandKind) :
    List (Band α) → List (Boundary α)
  | [] => []
  | b :: rest =>
    if b.kind = .lane then
      let here : Boundary α :=
        if previous = some .lane then
          if seen = leftLanes then ⟨b.left, .centre, m.centre⟩ else ⟨b.left, .laneDivider, m.lane⟩
        else ⟨b.left, .edge, m.edge⟩
      let last := if (rest.head?.map (·.kind)) = some .lane then [] else [⟨b.right, .edge, m.edge⟩]
      here :: last ++ linesFrom m leftLanes (seen + 1) (some .lane) rest
    else linesFrom m leftLanes seen (some b.kind) rest

/-- The cross-section of a style. -/
def ofProfile (p : StyleProfile α) : CrossSection α :=
  let layout := strips p
  let width := Scalar.sum (layout.map (·.2))
  let bands := Band.layOut (0.5 * width) layout
  let lines := linesFrom p.markings (leftLanes p) 0 none bands
  ⟨bands, lines.filter fun b => b.style != .none, width⟩

/-- Half the width. -/
def halfWidth (c : CrossSection α) : α := 0.5 * c.width

end CrossSection

end Roadworks
