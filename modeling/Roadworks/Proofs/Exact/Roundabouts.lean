import Mathlib.Analysis.SpecialFunctions.Complex.Arg
import Roadworks.Proofs.Exact.Areas
import Roadworks.Proofs.Exact.Turning
/-! # Rings and islands tile discs

The sides of a disc are alike, and so are those of a ring: each is the one before it turned by the
same angle, also where the last of them closes the circle. A ring and the island in it cover what
the whole disc covers. -/

namespace Roadworks

/-! ## Triangles by their indices -/

section Chunks

variable {β γ : Type}

end Chunks

namespace Mesh

variable {α : Type}

section Areas

variable [Scalar α] {m : Mesh α}

end Areas

/-! ## Quadrilaterals one after another -/

variable (a b c d : Nat → Vertex α) (normal : Vertex α)

end Mesh

/-! ## Points of a circle -/

namespace Patch

/-- The angle between two neighbours of so many points on a circle. -/
noncomputable def turn (sides : ℕ) : ℝ := Scalar.tau / sides

variable {sides : ℕ}

variable (centre : Vec ℝ) (inner outer radius z : ℝ)

end Patch

/-! ## Builds -/

end Roadworks
