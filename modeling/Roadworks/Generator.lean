import Roadworks.Grammar.Expansion
import Roadworks.Network.Assembly
import Roadworks.Surface.Build
/-!
From a grammar to the surfaces of its roads: expand, walk, assemble, build.
-/

namespace Roadworks

/-- The configuration of all stages. -/
structure GeneratorConfig (α : Type) where
  grammar : GrammarConfig α
  assembly : AssemblyOptions α
  geometry : BuildOptions α

/-- Why nothing is generated. -/
inductive GenerateError (α : Type) where
  | grammar (e : Grammar.Fault α)
  | graph (e : GraphError α)

variable {α : Type} [Scalar α]

/-- The configuration where nothing is said. -/
def GeneratorConfig.default : GeneratorConfig α := ⟨.default, .default, .default⟩

/-- The network of the roads that a grammar draws. -/
def generateNetwork (grammar : GrammarConfig α) (options : AssemblyOptions α) :
    Except (GenerateError α) (Network α) := do
  let word ← grammar.expand.mapError .grammar
  let segments ← (grammar.interpret word).mapError fun e => .grammar (.refused e)
  (options.assemble segments).mapError .graph

/-- The network of the roads that a grammar draws, and their surfaces. -/
def GeneratorConfig.generate (c : GeneratorConfig α) (resolver : StyleResolver α) :
    Except (GenerateError α) (Network α × Geometry α) := do
  let network ← generateNetwork c.grammar c.assembly
  let geometry ← (c.geometry.build network resolver).mapError .graph
  return (network, geometry)

end Roadworks
