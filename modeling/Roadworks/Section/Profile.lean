import Roadworks.Scalar
import Roadworks.Dictionary
/-!
Road styles: lanes, shoulders, median, curbs and painted lines, and catalogues of styles by name.
-/

namespace Roadworks

/-- How a line is painted. -/
inductive LineStyle where
  | none
  | solid
  | dashed
  | doubleSolid
deriving DecidableEq

/-- The painted lines of a road. -/
structure MarkingPattern (α : Type) where
  /-- The line between the two directions of travel. -/
  centre : LineStyle
  /-- The lines between lanes of one direction. -/
  lane : LineStyle
  /-- The lines along the edges of the carriageway. -/
  edge : LineStyle
  dashLength : α
  gapLength : α
  lineWidth : α

/-- A raised curb, with a sidewalk behind it unless that has no width. -/
structure CurbProfile (α : Type) where
  height : α
  width : α
  sidewalkWidth : α

/-- The measures of a road style. -/
structure StyleProfile (α : Type) where
  /-- The lanes of both directions; of an odd number the right side has one more. -/
  laneCount : UInt32
  laneWidth : α
  shoulderWidth : Option α
  medianWidth : Option α
  markings : MarkingPattern α
  curb : Option (CurbProfile α)

/-- What makes a style unbuildable. -/
inductive ProfileFault where
  | noLane
  | laneWidth
  | shoulderWidth
  | medianWidth
  | lineWidth
  | dashOrGap
  | dashBelowLine
  | curb
  | sidewalk
deriving DecidableEq

/-- What is wrong with a style. -/
def ProfileFault.message : ProfileFault → String
  | .noLane => "a road needs at least one lane"
  | .laneWidth => "lane width must be positive"
  | .shoulderWidth => "shoulder width must be positive"
  | .medianWidth => "median width must be positive"
  | .lineWidth => "line width must be positive"
  | .dashOrGap => "dash and gap lengths must be positive"
  | .dashBelowLine => "dash and gap lengths must be at least the line width"
  | .curb => "curb width must be positive and height non-negative"
  | .sidewalk => "sidewalk width must not be negative"

variable {α : Type} [Scalar α]

/-- Dashed lines between lanes and directions, solid ones along the edges. -/
def MarkingPattern.default : MarkingPattern α := ⟨.dashed, .dashed, .solid, 3.0, 4.0, 0.15⟩

/-- A low curb with a sidewalk. -/
def CurbProfile.default : CurbProfile α := ⟨0.15, 0.3, 2.0⟩

namespace StyleProfile

/-- Two lanes and nothing beside them. -/
def default : StyleProfile α := ⟨2, 3.5, .none, .none, .default, .none⟩

/-- A width that a part of a road can have. -/
def isPositive (x : α) : Bool := Scalar.isFinite x && decide (0.0 < x)

/-- Some line of the pattern is dashed. -/
def isDashed (m : MarkingPattern α) : Bool := [m.centre, m.lane, m.edge].contains .dashed

/-- The first fault of the painted lines. -/
def markingFault? (m : MarkingPattern α) : Option ProfileFault :=
  if !isPositive m.lineWidth then some .lineWidth
  else if isDashed m && !(isPositive m.dashLength && isPositive m.gapLength) then some .dashOrGap
  else if isDashed m && decide (Scalar.min m.dashLength m.gapLength < m.lineWidth) then
    some .dashBelowLine
  else .none

/-- The first fault of a curb. -/
def curbFault? (c : CurbProfile α) : Option ProfileFault :=
  if !isPositive c.width || !Scalar.isFinite c.height || decide (c.height < 0.0) then some .curb
  else if !Scalar.isFinite c.sidewalkWidth || decide (c.sidewalkWidth < 0.0) then some .sidewalk
  else .none

/-- The first fault of a style, if it has one. -/
def fault? (p : StyleProfile α) : Option ProfileFault :=
  if p.laneCount = 0 then some .noLane
  else if !isPositive p.laneWidth then some .laneWidth
  else if !p.shoulderWidth.all isPositive then some .shoulderWidth
  else if !p.medianWidth.all isPositive then some .medianWidth
  else (markingFault? p.markings).or (p.curb.bind curbFault?)

end StyleProfile

/-- Styles by name. -/
abbrev StyleCatalog (α : Type) := Dictionary String (StyleProfile α)

namespace StyleCatalog

/-- A curb with a sidewalk of the given width. -/
def curbWith (sidewalk : α) : CurbProfile α := { CurbProfile.default with sidewalkWidth := sidewalk }

/-- A narrow street with sidewalks. -/
def localStreet : StyleProfile α :=
  { StyleProfile.default with laneWidth := 3.0, curb := some (curbWith 1.5) }

/-- Four lanes with a double line in the middle. -/
def avenue : StyleProfile α :=
  { StyleProfile.default with
    laneCount := 4
    markings := { MarkingPattern.default with centre := .doubleSolid }
    curb := some (curbWith 3.0) }

/-- Four lanes around a median. -/
def boulevard : StyleProfile α :=
  { StyleProfile.default with
    laneCount := 4, medianWidth := some 4.0, curb := some (curbWith 4.0) }

/-- Six lanes with shoulders around a median. -/
def highway : StyleProfile α where
  laneCount := 6
  laneWidth := 3.75
  shoulderWidth := some 2.5
  medianWidth := some 3.0
  markings := { MarkingPattern.default with centre := .none, gapLength := 9.0 }
  curb := .none

/-- The styles that come with the library. -/
def builtin : StyleCatalog α :=
  .ofList [("local", localStreet), ("avenue", avenue), ("boulevard", boulevard),
    ("highway", highway)]

end StyleCatalog

end Roadworks
