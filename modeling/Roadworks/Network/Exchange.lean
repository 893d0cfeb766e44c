import Roadworks.Json.Reader
import Roadworks.Json.Writer
import Roadworks.Network.Codec
import Roadworks.Scalar.Binary64
/-!
Networks as texts. A measure that is not finite has no text, so a network that holds one is written
but may not be read again.
-/

namespace Roadworks.Network

/-- The text of a network on one line. -/
def toText (n : Network Float) : String := n.toJson.compact

/-- The network of a text, after checking it. -/
def ofText (s : String) : Except (ImportError Float) (Network Float) :=
  match Json.read s with
  | none => .error .notADocument
  | some v => ofJson v

end Roadworks.Network
