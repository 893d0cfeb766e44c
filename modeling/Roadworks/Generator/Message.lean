import Roadworks.Generator.Codec
import Roadworks.Grammar.Message
import Roadworks.Surface.Message
/-!
The wording of what stops generating or reading: the part that it comes from, then the reason.
-/

namespace Roadworks

/-- A refused configuration as one of several kinds of errors. -/
def ConfigError.stageMessage (e : ConfigError Float) : String := "configuration error: " ++ e.message

/-- A refused network as one of several kinds of errors. -/
def GraphError.stageMessage (e : GraphError Float) : String := "graph error: " ++ e.message

/-- What is told about a configuration that was generated from. -/
def Notice.ofGeneration (n : Network Float) (g : Geometry Float) : List Notice :=
  Notice.ofAssembly n ++ Notice.ofGeometry g

end Roadworks
