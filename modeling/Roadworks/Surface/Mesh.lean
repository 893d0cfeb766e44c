import Roadworks.Plane.Vec
/-!
Triangle meshes in plain buffers: vertices, a normal for each, and three indices for each triangle,
counterclockwise as seen from above.
-/

namespace Roadworks

/-- A mesh of triangles. -/
structure Mesh (α : Type) where
  positions : List (Vertex α)
  normals : List (Vertex α)
  indices : List UInt32

namespace Mesh

variable {α : Type}

/-- The mesh without triangles. -/
def empty : Mesh α := ⟨[], [], []⟩

/-- The mesh has no triangles. -/
def isEmpty (m : Mesh α) : Bool := m.indices.isEmpty

/-- The number of vertices. -/
def vertexCount (m : Mesh α) : Nat := m.positions.length

/-- The number of triangles. -/
def triangleCount (m : Mesh α) : Nat := m.indices.length / 3

/-- The index that the next vertex gets. -/
def next (m : Mesh α) : UInt32 := m.positions.length.toUInt32

/-- The mesh with a quadrilateral, whose corners go around counterclockwise. -/
def pushQuad (m : Mesh α) (a b c d normal : Vertex α) : Mesh α where
  positions := m.positions ++ [a, b, c, d]
  normals := m.normals ++ [normal, normal, normal, normal]
  indices := m.indices ++ [m.next, m.next + 1, m.next + 2, m.next, m.next + 2, m.next + 3]

/-- The indices of the triangles around vertex `first` and the `n` vertices after it. -/
def fanIndices (first n : UInt32) : List UInt32 :=
  (List.range n.toNat).flatMap fun i =>
    [first, first + 1 + i.toUInt32, first + 1 + (i.toUInt32 + 1) % n]

/-- The mesh with a fan of triangles around a centre. A rim of less than three vertices adds
nothing. -/
def pushFan (m : Mesh α) (centre : Vertex α) (rim : List (Vertex α)) (normal : Vertex α) : Mesh α :=
  if rim.length < 3 then m
  else
    { positions := m.positions ++ centre :: rim
      normals := m.normals ++ List.replicate (rim.length + 1) normal
      indices := m.indices ++ fanIndices m.next rim.length.toUInt32 }

/-- The mesh with the triangles of another. -/
def append (m other : Mesh α) : Mesh α where
  positions := m.positions ++ other.positions
  normals := m.normals ++ other.normals
  indices := m.indices ++ other.indices.map (· + m.next)

/-- The indices of the triangles, three by three; what is left over is no triangle. -/
def triples : List UInt32 → List (UInt32 × UInt32 × UInt32)
  | a :: b :: c :: rest => (a, b, c) :: triples rest
  | _ => []

/-! ### Counting and cutting -/

theorem triangleCount_pushQuad (m : Mesh α) (a b c d normal : Vertex α) :
    (m.pushQuad a b c d normal).triangleCount = m.triangleCount + 2 := by
  simp only [triangleCount, pushQuad, List.length_append, List.length_cons, List.length_nil]
  omega

theorem vertexCount_append (m other : Mesh α) :
    (m.append other).vertexCount = m.vertexCount + other.vertexCount :=
  List.length_append

theorem length_fanIndices (first n : UInt32) : (fanIndices first n).length = 3 * n.toNat := by
  simp only [fanIndices, List.length_flatMap, List.length_cons, List.length_nil, List.map_const',
    List.sum_replicate_nat, List.length_range]
  omega

/-- Indices that come in threes are cut into triangles separately from those after them. -/
theorem triples_append {a b : List UInt32} (h : a.length % 3 = 0) :
    triples (a ++ b) = triples a ++ triples b := by
  fun_induction triples a with
  | case1 x y z rest ih =>
      simp only [List.length_cons] at h
      simp [triples, ih (by omega)]
  | case2 a ha =>
      match a with
      | [] => rfl
      | [_] | [_, _] => simp at h
      | x :: y :: z :: rest => exact absurd rfl (ha x y z rest)

variable [Scalar α]

/-- The normal of a level surface. -/
def upward : Vertex α := ⟨0.0, 0.0, 1.0⟩

/-- The area of a triangle as seen from above, negative where it goes around clockwise. The sides
are taken in single precision. -/
def projectedArea (a b c : Vertex α) : α :=
  let abx := Scalar.toSingle (b.x - a.x)
  let aby := Scalar.toSingle (b.y - a.y)
  let acx := Scalar.toSingle (c.x - a.x)
  let acy := Scalar.toSingle (c.y - a.y)
  0.5 * (abx * acy - aby * acx)

/-- The corners of the triangles, if all of them are there. -/
def triangles (m : Mesh α) : Option (List (Vertex α × Vertex α × Vertex α)) :=
  let vertices := m.positions.toArray
  (triples m.indices).mapM fun (a, b, c) => do
    return (← vertices[a.toNat]?, ← vertices[b.toNat]?, ← vertices[c.toNat]?)

/-- The areas of all triangles, if all of their corners are there. -/
def projectedAreas (m : Mesh α) : Option (List α) :=
  m.triangles.map fun ts => ts.map fun (a, b, c) => projectedArea a b c

end Mesh

end Roadworks
