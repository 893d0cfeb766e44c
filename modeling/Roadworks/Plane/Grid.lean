import Roadworks.Plane.Vec
/-!
A uniform grid of square cells for finding points near a given one: they lie in its own cell or in
one of the eight around it. Points far out share the outermost cells.
-/

namespace Roadworks

/-- Points, given by number, by the cell that they lie in. -/
structure Grid (α : Type) where
  /-- How many cells there are to a unit of length. -/
  density : α
  entries : List ((Int × Int) × Nat)

namespace Grid

variable {α : Type} [Scalar α]

/-- The number of the outermost cell on either side. -/
def cellLimit : Int := Int64.maxValue.toInt - 1

/-- The grid without points whose cells have the given size. -/
def empty (cellSize : α) : Grid α := ⟨1.0 / cellSize, []⟩

/-- The number of the row or the column that a coordinate falls into. -/
def cellIndex (g : Grid α) (v : α) : Int :=
  max (-cellLimit) (min cellLimit (Scalar.floor (v * g.density)))

/-- The cell that a point lies in. -/
def cellOf (g : Grid α) (p : Vec α) : Int × Int := (g.cellIndex p.x, g.cellIndex p.y)

/-- The grid with one more point. -/
def insert (g : Grid α) (index : Nat) (p : Vec α) : Grid α :=
  { g with entries := g.entries ++ [(g.cellOf p, index)] }

/-- The cells lie side by side or are the same. -/
def isBeside (c d : Int × Int) : Bool := (c.1 - d.1).natAbs ≤ 1 && (c.2 - d.2).natAbs ≤ 1

/-- The points in a cell in the order of insertion. -/
def bucket (entries : List ((Int × Int) × Nat)) (cell : Int × Int) : List Nat :=
  (entries.filter (·.1 == cell)).map (·.2)

/-- The steps from a cell to itself and its neighbours, column by column. -/
def neighbourhood : List (Int × Int) :=
  [(-1, -1), (-1, 0), (-1, 1), (0, -1), (0, 0), (0, 1), (1, -1), (1, 0), (1, 1)]

/-- The points that may lie within one cell size of `p`: those of the cells around it. -/
def candidates (g : Grid α) (p : Vec α) : List Nat :=
  let cell := g.cellOf p
  let around := g.entries.filter fun e => isBeside e.1 cell
  neighbourhood.flatMap fun (dx, dy) => bucket around (cell.1 + dx, cell.2 + dy)

/-! ### The cells around a cell -/

theorem mem_bucket_iff {entries : List ((Int × Int) × Nat)} {cell : Int × Int} {index : Nat} :
    index ∈ bucket entries cell ↔ (cell, index) ∈ entries := by
  simp [bucket]

/-- A cell is beside another when one of the nine steps leads from the other to it. -/
theorem isBeside_iff {c d : Int × Int} :
    isBeside c d ↔ ∃ step ∈ neighbourhood, c = (d.1 + step.1, d.2 + step.2) := by
  obtain ⟨a, b⟩ := c
  obtain ⟨x, y⟩ := d
  simp only [isBeside, neighbourhood, List.mem_cons, List.not_mem_nil, or_false, Prod.mk.injEq,
    Bool.and_eq_true, decide_eq_true_eq, exists_eq_or_imp, exists_eq_left]
  omega

/-- The candidates are the points in the cells around that of `p`. -/
theorem mem_candidates_iff (g : Grid α) (p : Vec α) (index : Nat) :
    index ∈ g.candidates p ↔ ∃ e ∈ g.entries, isBeside e.1 (g.cellOf p) ∧ e.2 = index := by
  simp only [candidates, List.mem_flatMap, mem_bucket_iff, List.mem_filter]
  constructor
  · rintro ⟨_, _, he, hb⟩
    exact ⟨_, he, hb, rfl⟩
  · rintro ⟨e, he, hb, rfl⟩
    obtain ⟨step, hstep, hcell⟩ := isBeside_iff.mp hb
    exact ⟨step, hstep, hcell ▸ he, hcell ▸ hb⟩

end Grid

end Roadworks
