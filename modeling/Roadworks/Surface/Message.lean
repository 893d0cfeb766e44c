import Roadworks.Network.Message
import Roadworks.Surface.Build
/-!
The wording of the warnings that building raises.
-/

namespace Roadworks

/-- What needed a fallback. -/
def BuildWarning.message : BuildWarning Float → String
  | .missingStyle i c =>
    "no style profile for class '" ++ c ++ "' of segment " ++ segmentText i ++ ", using the default"
  | .invalidStyle i c fault =>
    "style profile '" ++ c ++ "' of segment " ++ segmentText i ++ " is invalid (" ++ fault.message ++
      "), using the default"
  | .segmentTooShort i _ =>
    "segment " ++ segmentText i ++ " is shorter than its junction patches and has no surface"
  | .unclassifiedJunction v degree =>
    "node " ++ nodeText v ++ " with " ++ toString degree ++
      " incident segments has no recognised intersection shape"
  | .degenerateIsland v => "roundabout at node " ++ nodeText v ++ " is too small for an island"

/-- What is told about a build: its warnings. -/
def Notice.ofGeometry (g : Geometry Float) : List Notice :=
  g.warnings.map fun w => .warning w.message

end Roadworks
