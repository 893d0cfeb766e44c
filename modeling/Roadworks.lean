import Roadworks.Scalar.Binary64
import Roadworks.Decimal.Layout
import Roadworks.Decimal.Reader
import Roadworks.Text.Blank
import Roadworks.Json.Reader
import Roadworks.Json.Writer
import Roadworks.Json.Decode
import Roadworks.Dictionary
import Roadworks.Plane.Polyline
import Roadworks.Plane.Grid
import Roadworks.Grammar.Rules
import Roadworks.Grammar.Message
import Roadworks.Grammar.Expansion
import Roadworks.Turtle
import Roadworks.Network.Assembly
import Roadworks.Network.Document
import Roadworks.Network.Exchange
import Roadworks.Surface.Sweep
import Roadworks.Surface.Marking
import Roadworks.Surface.Patch
import Roadworks.Surface.Message
import Roadworks.Generator
import Roadworks.Section.Codec
import Roadworks.Generator.Message
import Roadworks.Proofs.Assembly.Accounting
import Roadworks.Proofs.Document.Exchange
import Roadworks.Proofs.Document.Refusal
import Roadworks.Proofs.Document.Restoration
import Roadworks.Proofs.Exact.AllPairs
import Roadworks.Proofs.Grammar.Writing
import Roadworks.Proofs.Exact.Expansion
import Roadworks.Proofs.Exact.Reassembly
import Roadworks.Proofs.Exact.Symmetry
import Roadworks.Proofs.Exact.Patches
import Roadworks.Proofs.Exact.Joints
import Roadworks.Proofs.Surface.Accounting
import Roadworks.Proofs.Surface.Fallback
import Roadworks.Proofs.Surface.Locality
import Roadworks.Proofs.Turtle.Nesting
import Roadworks.Proofs.Turtle.Overflow
import Roadworks.Proofs.Turtle.Tracing
import Roadworks.Proofs.Generator.Styles
import Roadworks.Proofs.Exact.Bands
import Roadworks.Proofs.Exact.Mitres
import Roadworks.Proofs.Exact.Areas
import Roadworks.Proofs.Exact.Markings
import Roadworks.Proofs.Surface.Meshes
import Roadworks.Proofs.Exact.Boundaries
import Roadworks.Proofs.Exact.Roundabouts
import Roadworks.Proofs.Exact.Remnants
import Roadworks.Proofs.Exact.Walking
import Roadworks.Proofs.Cluster.Passes
import Roadworks.Proofs.Cluster.Coverage
import Roadworks.Proofs.Exact.Cuts
import Roadworks.Proofs.Exact.Sampling
import Roadworks.Proofs.Forest.Searching
import Roadworks.Proofs.Scalar.Order
import Roadworks.Proofs.Scalar.Remainders
import Roadworks.Proofs.Turtle.Roundings
import Roadworks.Proofs.Document.Omissions
