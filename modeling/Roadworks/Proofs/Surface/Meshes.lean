import Mathlib.Algebra.Ring.Nat
import Roadworks.Proofs.Surface.Sweeping
/-! # Meshes and their triangles

Quadrilaterals and fans are added to a mesh like other meshes: the new vertices come after those
that are there, and the new indices are shifted by their number. As long as all vertices can be
numbered in 32 bits, a mesh that is put together in this way refers to its own vertices only, and it
has the triangles of its parts, one part after the other. -/

namespace Roadworks

/-! ## Looking up all of a list -/

section Lookup

variable {β γ δ : Type} {f : β → Option γ} {g : β → Option δ} {l : List β} {ys : List γ}

theorem exists_mapM_eq_some (h : ∀ b ∈ l, ∃ y, f b = some y) : ∃ ys, l.mapM f = some ys := by
  induction l with
  | nil => exact ⟨[], rfl⟩
  | cons b l ih =>
      obtain ⟨y, hy⟩ := h b List.mem_cons_self
      obtain ⟨ys, hys⟩ := ih fun c hc => h c (List.mem_cons_of_mem b hc)
      refine ⟨y :: ys, ?_⟩
      rw [List.mapM_cons, hy, hys]
      rfl

/-- What is read off every entry that was looked up can be looked up itself. -/
theorem mapM_eq_some_map {k : γ → δ} (hg : ∀ b ∈ l, ∀ y, f b = some y → g b = some (k y))
    (h : l.mapM f = some ys) : l.mapM g = some (ys.map k) := by
  induction l generalizing ys with
  | nil =>
      cases Option.some.inj h
      rfl
  | cons b l ih =>
      rw [List.mapM_cons] at h ⊢
      obtain ⟨y, hy, h⟩ := Option.bind_eq_some_iff.mp h
      obtain ⟨ys', hys, h⟩ := Option.bind_eq_some_iff.mp h
      cases Option.some.inj h
      rw [hg b List.mem_cons_self y hy, ih (fun c hc => hg c (List.mem_cons_of_mem b hc)) hys]
      rfl

end Lookup

namespace Mesh

variable {α : Type}

/-! ## Triangles with normals -/

/-- A corner of a triangle: a vertex and the normal there. -/
abbrev Corner (α : Type) := Vertex α × Vertex α

/-- A triangle with its normals. -/
abbrev Facet (α : Type) := Corner α × Corner α × Corner α

/-- The corner with an index, if there is a vertex and a normal for it. -/
def corner? (m : Mesh α) (i : UInt32) : Option (Corner α) := do
  return (← m.positions[i.toNat]?, ← m.normals[i.toNat]?)

def facet? (m : Mesh α) (t : UInt32 × UInt32 × UInt32) : Option (Facet α) := do
  return (← m.corner? t.1, ← m.corner? t.2.1, ← m.corner? t.2.2)

/-- The triangles with their normals, if all of their corners are there. -/
def facets (m : Mesh α) : Option (List (Facet α)) := (triples m.indices).mapM m.facet?

theorem facets_empty : (empty : Mesh α).facets = some [] := rfl

/-- The area of a triangle as seen from above. -/
def Facet.area [Scalar α] (f : Facet α) : α := projectedArea f.1.1 f.2.1.1 f.2.2.1

/-- Every index of the mesh stands for a vertex with a normal, and they come in threes. -/
structure IsWellFormed (m : Mesh α) : Prop where
  length_indices : m.indices.length % 3 = 0
  index_lt : ∀ i ∈ m.indices, i.toNat < m.positions.length
  length_normals : m.normals.length = m.positions.length

/-- The mesh is put together from quadrilaterals, fans and meshes of the same sort. -/
inductive IsComposed : Mesh α → Prop
  | empty : IsComposed .empty
  | pushQuad {m : Mesh α} (h : IsComposed m) (a b c d normal : Vertex α) :
      IsComposed (m.pushQuad a b c d normal)
  | pushFan {m : Mesh α} (h : IsComposed m) (centre : Vertex α) (rim : List (Vertex α))
      (normal : Vertex α) : IsComposed (m.pushFan centre rim normal)
  | append {m other : Mesh α} (h : IsComposed m) (hother : IsComposed other) :
      IsComposed (m.append other)

/-! ## Indices -/

/-- Renaming indices renames those of every triangle. -/
theorem triples_map (f : UInt32 → UInt32) (l : List UInt32) :
    triples (l.map f) = (triples l).map fun t => (f t.1, f t.2.1, f t.2.2) := by
  fun_induction triples l with
  | case1 a b c rest ih => simp [triples, ih]
  | case2 l hl =>
      rcases l with _ | ⟨a, _ | ⟨b, _ | ⟨c, rest⟩⟩⟩
      · rfl
      · rfl
      · rfl
      · exact absurd rfl (hl a b c rest)

theorem mem_of_mem_triples {l : List UInt32} {t : UInt32 × UInt32 × UInt32} (h : t ∈ triples l) :
    t.1 ∈ l ∧ t.2.1 ∈ l ∧ t.2.2 ∈ l := by
  fun_induction triples l with
  | case1 a b c rest ih =>
      rcases List.mem_cons.mp h with rfl | h
      · simp
      · obtain ⟨ha, hb, hc⟩ := ih h
        simp [ha, hb, hc]
  | case2 => cases h

theorem next_empty : (empty : Mesh α).next = 0 := rfl

theorem indices_quad (a b c d normal : Vertex α) :
    (empty.pushQuad a b c d normal).indices = [0, 1, 2, 0, 2, 3] := rfl

/-- Adding a quadrilateral is appending the mesh of that quadrilateral. -/
theorem pushQuad_eq_append (m : Mesh α) (a b c d normal : Vertex α) :
    m.pushQuad a b c d normal = m.append (empty.pushQuad a b c d normal) := by
  rw [append, indices_quad]
  simp [pushQuad, empty, UInt32.add_comm]

theorem map_add_fanIndices (first n : UInt32) :
    (fanIndices 0 n).map (· + first) = fanIndices first n := by
  simp only [fanIndices, List.map_flatMap]
  congr 1
  funext i
  simp only [List.map_cons, List.map_nil, UInt32.zero_add]
  rw [UInt32.add_comm _ first, UInt32.add_comm _ first, UInt32.add_assoc, UInt32.add_assoc]

/-- Adding a fan is appending the mesh of that fan. -/
theorem pushFan_eq_append (m : Mesh α) (centre : Vertex α) (rim : List (Vertex α))
    (normal : Vertex α) :
    m.pushFan centre rim normal = m.append (empty.pushFan centre rim normal) := by
  rw [pushFan, pushFan, next_empty]
  split
  · simp [append, empty]
  · simp [append, empty, map_add_fanIndices]

theorem toNat_toUInt32 {n : Nat} (h : n < 2 ^ 32) : n.toUInt32.toNat = n := by
  rw [Nat.toUInt32_eq, UInt32.toNat_ofNat', Nat.mod_eq_of_lt h]

theorem toNat_next {m : Mesh α} (h : m.positions.length < 2 ^ 32) :
    m.next.toNat = m.positions.length := toNat_toUInt32 h

theorem toNat_add_next {m : Mesh α} {i : UInt32} {n : Nat} (hi : i.toNat < n)
    (h : m.positions.length + n < 2 ^ 32) : (i + m.next).toNat = m.positions.length + i.toNat := by
  rw [UInt32.toNat_add, toNat_next (by omega), Nat.mod_eq_of_lt (by omega), Nat.add_comm]

/-! ## Well-formed meshes -/

theorem isWellFormed_empty : (empty : Mesh α).IsWellFormed := ⟨rfl, by simp [empty], rfl⟩

theorem isWellFormed_quad (a b c d normal : Vertex α) :
    (empty.pushQuad a b c d normal).IsWellFormed := by
  refine ⟨by simp [indices_quad], ?_, rfl⟩
  intro i hi
  rw [indices_quad] at hi
  have hbound : ∀ i ∈ [(0 : UInt32), 1, 2, 0, 2, 3], i.toNat < 4 := by simp
  exact hbound i hi

theorem toNat_lt_of_mem_fanIndices {n i : UInt32} (h : i ∈ fanIndices 0 n) :
    i.toNat < n.toNat + 1 := by
  have hstep (k : UInt32) (hk : k.toNat < n.toNat) : (0 + 1 + k).toNat < n.toNat + 1 := by
    rw [UInt32.toNat_add]
    exact Nat.lt_of_le_of_lt (Nat.mod_le _ _) (by simp; omega)
  obtain ⟨k, hk, h⟩ := List.mem_flatMap.mp h
  have hk := List.mem_range.mp hk
  simp only [List.mem_cons, List.not_mem_nil, or_false] at h
  rcases h with rfl | rfl | rfl
  · exact Nat.succ_pos _
  · exact hstep _ (by rwa [toNat_toUInt32 (hk.trans n.toNat_lt)])
  · exact hstep _ (by rw [UInt32.toNat_mod]; exact Nat.mod_lt _ (by omega))

theorem isWellFormed_fan (centre : Vertex α) (rim : List (Vertex α)) (normal : Vertex α)
    (h : (empty.pushFan centre rim normal).vertexCount < 2 ^ 32) :
    (empty.pushFan centre rim normal).IsWellFormed := by
  rw [pushFan] at h ⊢
  split
  · exact isWellFormed_empty
  · next hrim =>
      rw [if_neg hrim] at h
      have hcount : rim.length + 1 < 2 ^ 32 := by simpa [vertexCount, empty] using h
      refine ⟨?_, ?_, ?_⟩
      · simp [empty, length_fanIndices]
      · intro i hi
        have hlt := toNat_lt_of_mem_fanIndices (n := rim.length.toUInt32) (i := i)
          (by simpa [empty, next] using hi)
        rw [toNat_toUInt32 (by omega)] at hlt
        simpa [empty] using hlt
      · simp [empty]

variable {m other : Mesh α}

theorem IsWellFormed.append (h : m.IsWellFormed) (hother : other.IsWellFormed)
    (hcount : m.vertexCount + other.vertexCount < 2 ^ 32) : (m.append other).IsWellFormed where
  length_indices := by
    have hfirst := h.length_indices
    have hsecond := hother.length_indices
    simp only [Mesh.append, List.length_append, List.length_map]
    omega
  index_lt i hi := by
    simp only [Mesh.append, List.length_append, List.mem_append, List.mem_map] at hi ⊢
    rcases hi with hi | ⟨j, hj, rfl⟩
    · exact Nat.lt_of_lt_of_le (h.index_lt i hi) (Nat.le_add_right _ _)
    · rw [toNat_add_next (hother.index_lt j hj) hcount]
      exact Nat.add_lt_add_left (hother.index_lt j hj) _
  length_normals := by
    simp [Mesh.append, h.length_normals, hother.length_normals]

theorem IsComposed.isWellFormed (h : m.IsComposed) (hcount : m.vertexCount < 2 ^ 32) :
    m.IsWellFormed := by
  induction h with
  | empty => exact isWellFormed_empty
  | pushQuad hm a b c d normal ih =>
      rw [pushQuad_eq_append] at hcount ⊢
      rw [vertexCount_append] at hcount
      exact (ih (by omega)).append (isWellFormed_quad a b c d normal) hcount
  | pushFan hm centre rim normal ih =>
      rw [pushFan_eq_append] at hcount ⊢
      rw [vertexCount_append] at hcount
      exact (ih (by omega)).append (isWellFormed_fan centre rim normal (by omega)) hcount
  | append hm hother ih ihother =>
      rw [vertexCount_append] at hcount
      exact (ih (by omega)).append (ihother (by omega)) hcount

/-! ## Triangles of a well-formed mesh -/

theorem IsWellFormed.exists_corner? (h : m.IsWellFormed) {i : UInt32} (hi : i ∈ m.indices) :
    ∃ y, m.corner? i = some y := by
  have hposition := h.index_lt i hi
  have hnormal : i.toNat < m.normals.length := by rwa [h.length_normals]
  refine ⟨(m.positions[i.toNat], m.normals[i.toNat]), ?_⟩
  rw [corner?, List.getElem?_eq_getElem hposition, List.getElem?_eq_getElem hnormal]
  rfl

theorem IsWellFormed.exists_facets (h : m.IsWellFormed) : ∃ fs, m.facets = some fs := by
  apply exists_mapM_eq_some
  intro t ht
  obtain ⟨ha, hb, hc⟩ := mem_of_mem_triples ht
  obtain ⟨a, ha⟩ := h.exists_corner? ha
  obtain ⟨b, hb⟩ := h.exists_corner? hb
  obtain ⟨c, hc⟩ := h.exists_corner? hc
  refine ⟨(a, b, c), ?_⟩
  rw [facet?, ha, hb, hc]
  rfl

theorem corner?_eq_some_iff {i : UInt32} {y : Corner α} :
    m.corner? i = some y ↔ m.positions[i.toNat]? = some y.1 ∧ m.normals[i.toNat]? = some y.2 := by
  simp only [corner?, bind, pure, Option.bind_eq_some_iff, Option.some.injEq]
  constructor
  · rintro ⟨p, hp, q, hq, rfl⟩
    exact ⟨hp, hq⟩
  · rintro ⟨hp, hq⟩
    exact ⟨_, hp, _, hq, rfl⟩

theorem facet?_eq_some_iff {t : UInt32 × UInt32 × UInt32} {f : Facet α} :
    m.facet? t = some f ↔ m.corner? t.1 = some f.1 ∧ m.corner? t.2.1 = some f.2.1 ∧
      m.corner? t.2.2 = some f.2.2 := by
  simp only [facet?, bind, pure, Option.bind_eq_some_iff, Option.some.injEq]
  constructor
  · rintro ⟨a, ha, b, hb, c, hc, rfl⟩
    exact ⟨ha, hb, hc⟩
  · rintro ⟨ha, hb, hc⟩
    exact ⟨_, ha, _, hb, _, hc, rfl⟩

/-- The corners of a mesh stay where they are when another one is appended. -/
theorem corner?_append {i : UInt32} {y : Corner α} (h : m.corner? i = some y) :
    (m.append other).corner? i = some y := by
  obtain ⟨hp, hn⟩ := corner?_eq_some_iff.mp h
  have hfirst := (List.getElem?_eq_some_iff.mp hp).1
  have hsecond := (List.getElem?_eq_some_iff.mp hn).1
  refine corner?_eq_some_iff.mpr ⟨?_, ?_⟩
  · rw [append, List.getElem?_append_left hfirst, hp]
  · rw [append, List.getElem?_append_left hsecond, hn]

/-- The corners of a mesh that is appended are found at the shifted indices. -/
theorem corner?_append_add_next (hm : m.IsWellFormed)
    (hcount : m.vertexCount + other.vertexCount < 2 ^ 32) {i : UInt32} {y : Corner α}
    (h : other.corner? i = some y) : (m.append other).corner? (i + m.next) = some y := by
  obtain ⟨hp, hn⟩ := corner?_eq_some_iff.mp h
  have hindex := toNat_add_next (List.getElem?_eq_some_iff.mp hp).1 hcount
  have hlength := hm.length_normals
  refine corner?_eq_some_iff.mpr ⟨?_, ?_⟩
  · rw [append, hindex, List.getElem?_append_right (Nat.le_add_right _ _), Nat.add_sub_cancel_left,
      hp]
  · rw [append, hindex, ← hlength, List.getElem?_append_right (Nat.le_add_right _ _),
      Nat.add_sub_cancel_left, hn]

/-- Appending a mesh appends its triangles. -/
theorem IsWellFormed.facets_append (h : m.IsWellFormed)
    (hcount : m.vertexCount + other.vertexCount < 2 ^ 32) {fs gs : List (Facet α)}
    (hfs : m.facets = some fs) (hgs : other.facets = some gs) :
    (m.append other).facets = some (fs ++ gs) := by
  have hfirst : (triples m.indices).mapM (m.append other).facet? = some (fs.map id) := by
    refine mapM_eq_some_map (fun t _ f hf => ?_) hfs
    obtain ⟨ha, hb, hc⟩ := facet?_eq_some_iff.mp hf
    exact facet?_eq_some_iff.mpr ⟨corner?_append ha, corner?_append hb, corner?_append hc⟩
  have hsecond : (triples (other.indices.map (· + m.next))).mapM (m.append other).facet? =
      some (gs.map id) := by
    rw [triples_map, List.mapM_map]
    refine mapM_eq_some_map (fun t _ f hf => ?_) hgs
    obtain ⟨ha, hb, hc⟩ := facet?_eq_some_iff.mp hf
    exact facet?_eq_some_iff.mpr ⟨corner?_append_add_next h hcount ha,
      corner?_append_add_next h hcount hb, corner?_append_add_next h hcount hc⟩
  have hindices : (m.append other).indices = m.indices ++ other.indices.map (· + m.next) := rfl
  rw [facets, hindices, triples_append h.length_indices, List.mapM_append, hfirst, hsecond]
  simp

/-- The areas of a mesh are those of its triangles. -/
theorem projectedAreas_of_facets [Scalar α] {fs : List (Facet α)} (h : m.facets = some fs) :
    m.projectedAreas = some (fs.map Facet.area) := by
  have htriangles : m.triangles = some (fs.map fun f => (f.1.1, f.2.1.1, f.2.2.1)) := by
    refine mapM_eq_some_map (fun t _ f hf => ?_) h
    obtain ⟨ha, hb, hc⟩ := facet?_eq_some_iff.mp hf
    have ha := (corner?_eq_some_iff.mp ha).1
    have hb := (corner?_eq_some_iff.mp hb).1
    have hc := (corner?_eq_some_iff.mp hc).1
    simp [ha, hb, hc]
  rw [projectedAreas, htriangles, Option.map_some, List.map_map]
  rfl

/-! ## Merging -/

theorem vertexCount_foldl_append (parts : List (Mesh α)) (m : Mesh α) :
    (parts.foldl append m).vertexCount = m.vertexCount + (parts.map vertexCount).sum := by
  induction parts generalizing m with
  | nil => rfl
  | cons p parts ih =>
      rw [List.foldl_cons, ih, vertexCount_append, List.map_cons, List.sum_cons, Nat.add_assoc]

theorem isComposed_foldl_append {parts : List (Mesh α)} (hparts : ∀ p ∈ parts, p.IsComposed)
    (hm : m.IsComposed) : (parts.foldl append m).IsComposed := by
  induction parts generalizing m with
  | nil => exact hm
  | cons p parts ih =>
      exact ih (fun q hq => hparts q (List.mem_cons_of_mem p hq))
        (hm.append (hparts p List.mem_cons_self))

/-- Meshes that are appended one after the other keep all of their triangles. -/
theorem facets_foldl_append {parts : List (Mesh α)} (hparts : ∀ p ∈ parts, p.IsComposed)
    (hm : m.IsComposed) (hcount : (parts.foldl append m).vertexCount < 2 ^ 32)
    {fs : List (Facet α)} (hfs : m.facets = some fs) :
    ∃ fss, parts.mapM facets = some fss ∧
      (parts.foldl append m).facets = some (fs ++ fss.flatten) := by
  induction parts generalizing m fs with
  | nil => exact ⟨[], rfl, by simpa using hfs⟩
  | cons p parts ih =>
      have hp := hparts p List.mem_cons_self
      rw [List.foldl_cons] at hcount ⊢
      have hfirst : m.vertexCount + p.vertexCount < 2 ^ 32 := by
        rw [vertexCount_foldl_append, vertexCount_append] at hcount
        omega
      obtain ⟨gs, hgs⟩ := (hp.isWellFormed (by omega)).exists_facets
      have happend := (hm.isWellFormed (by omega)).facets_append hfirst hfs hgs
      obtain ⟨fss, hfss, hmerged⟩ :=
        ih (fun q hq => hparts q (List.mem_cons_of_mem p hq)) (hm.append hp) hcount happend
      refine ⟨gs :: fss, ?_, ?_⟩
      · rw [List.mapM_cons, hgs, hfss]
        rfl
      · rw [hmerged, List.flatten_cons, List.append_assoc]

end Mesh

/-! ## Meshes of a geometry -/

section Composed

variable {α : Type} [Scalar α] {m : Mesh α}

theorem SweepPath.isComposed_strip (h : m.IsComposed) (left right : List (Vertex α)) :
    (strip left right m).IsComposed := by
  fun_induction strip left right m with
  | case1 l l' ls r r' rs m ih => exact ih (h.pushQuad ..)
  | case2 => exact h

theorem SweepPath.isComposed_wall (h : m.IsComposed) (onLeft : Bool) (points : List (Vec α))
    (bottom top : List (Vertex α)) : (wall onLeft points bottom top m).IsComposed := by
  fun_induction wall onLeft points bottom top m with
  | case1 p p' ps b b' bs t t' ts m n normal m' ih =>
      apply ih
      cases onLeft with
      | true | false => exact h.pushQuad ..
  | case2 => exact h

theorem RoadSurface.isComposed_bandSurface (sweep : SweepPath α) (curbHeight : α) (b : Band α) :
    (bandSurface sweep curbHeight b).mesh.IsComposed := by
  have hribbon (lift : α) : (sweep.ribbon b lift).IsComposed := SweepPath.isComposed_strip .empty ..
  rw [bandSurface]
  dsimp only
  split
  · exact (hribbon _).append (SweepPath.isComposed_wall .empty ..)
  · exact hribbon _

theorem Patch.isComposed_disc (centre : Vec α) (radius z : α) (sides : Nat) :
    (disc centre radius z sides).IsComposed := Mesh.IsComposed.empty.pushFan ..

theorem Patch.isComposed_annulus (centre : Vec α) (inner outer z : α) (sides : Nat) :
    (annulus centre inner outer z sides).IsComposed := by
  refine List.foldlRecOn (motive := Mesh.IsComposed) _ _ .empty fun m hm i _ => ?_
  exact hm.pushQuad ..

theorem Patch.isComposed_build (node : Nat) (kind : Option IntersectionType) (centre : Vec α)
    (z : α) (shape : PatchShape α) (islandHeight : α) (sides : Nat) :
    let j := build node kind centre z shape islandHeight sides
    j.surface.IsComposed ∧ j.island.IsComposed := by
  simp only [build]
  cases shape.island with
  | none => exact ⟨isComposed_disc .., .empty⟩
  | some island => exact ⟨isComposed_annulus .., isComposed_disc ..⟩

end Composed

variable {α : Type}

/-- The meshes of the roads, band by band, then the patches with their islands. -/
def Geometry.meshes (g : Geometry α) : List (Mesh α) :=
  (g.roads.flatMap fun s => s.surfaces.map (·.mesh)) ++
    g.junctions.flatMap fun j => [j.surface, j.island]

theorem Geometry.mergedSurface_eq (g : Geometry α) :
    g.mergedSurface = g.meshes.foldl Mesh.append .empty := rfl

variable [Scalar α]

/-- The meshes of a geometry are well formed, and the merged one has all of their triangles. -/
structure Geometry.IsMerged (g : Geometry α) : Prop where
  isWellFormed : ∀ m ∈ g.meshes, m.vertexCount < 2 ^ 32 → m.IsWellFormed
  isWellFormed_merged : g.mergedSurface.vertexCount < 2 ^ 32 → g.mergedSurface.IsWellFormed
  merged : g.mergedSurface.vertexCount < 2 ^ 32 → ∃ fss areas,
    g.meshes.mapM Mesh.facets = some fss ∧ g.mergedSurface.facets = some fss.flatten ∧
    g.meshes.mapM Mesh.projectedAreas = some areas ∧
    g.mergedSurface.projectedAreas = some areas.flatten

theorem Geometry.isMerged {g : Geometry α} (h : ∀ m ∈ g.meshes, m.IsComposed) : g.IsMerged where
  isWellFormed m hm hcount := (h m hm).isWellFormed hcount
  isWellFormed_merged hcount := by
    rw [mergedSurface_eq] at hcount ⊢
    exact (Mesh.isComposed_foldl_append h .empty).isWellFormed hcount
  merged hcount := by
    rw [mergedSurface_eq] at hcount ⊢
    obtain ⟨fss, hfss, hmerged⟩ := Mesh.facets_foldl_append h .empty hcount Mesh.facets_empty
    refine ⟨fss, fss.map (List.map Mesh.Facet.area), hfss, hmerged,
      mapM_eq_some_map (fun p _ fs hfs => ?_) hfss, ?_⟩
    · exact Mesh.projectedAreas_of_facets hfs
    · rw [← List.map_flatten]
      exact Mesh.projectedAreas_of_facets hmerged

theorem BuildOptions.isComposed_of_mem_meshes {o : BuildOptions α} {n : Network α}
    {resolver : StyleResolver α} (h : n.validate = .ok ()) {m : Mesh α}
    (hm : m ∈ (o.surfaces n resolver).meshes) : m.IsComposed := by
  simp only [Geometry.meshes, List.mem_append, List.mem_flatMap, List.mem_map, List.mem_cons,
    List.not_mem_nil, or_false] at hm
  rcases hm with ⟨s, hs, y, hy, rfl⟩ | ⟨j, hj, hm⟩
  · obtain ⟨e, v, w, sweep, hbuilt⟩ := exists_isBuilt_of_mem_roads h hs
    rw [hbuilt.isSwept.surfaces_eq] at hy
    obtain ⟨b, _, rfl⟩ := List.mem_map.mp hy
    exact RoadSurface.isComposed_bandSurface ..
  · obtain ⟨v, _, hmade⟩ := o.exists_eq_build_of_mem_junctions n resolver hj
    rw [hmade] at hm
    rcases hm with rfl | rfl
    · exact (Patch.isComposed_build ..).1
    · exact (Patch.isComposed_build ..).2

/-- Meshes that are put together from quadrilaterals, fans and each other refer to their own
vertices only and keep the triangles of their parts, as long as their vertices can be numbered. So
does the mesh into which everything that was built for a network is merged. -/
theorem merging_keeps_triangles :
    (∀ m : Mesh α, m.IsComposed → m.vertexCount < 2 ^ 32 →
      m.IsWellFormed ∧ ∃ areas, m.projectedAreas = some areas) ∧
    (∀ m other : Mesh α, m.IsComposed → other.IsComposed → (m.append other).vertexCount < 2 ^ 32 →
      ∃ fs gs, m.facets = some fs ∧ other.facets = some gs ∧
        (m.append other).facets = some (fs ++ gs)) ∧
    ∀ (b : Builder α) (n : Network α) (resolver : StyleResolver α) (g : Geometry α),
      (b.build n resolver).2 = .ok g → g.IsMerged := by
  refine ⟨fun m hm hcount => ?_, fun m other hm hother hcount => ?_, fun b n resolver g hg => ?_⟩
  · have hsound := hm.isWellFormed hcount
    obtain ⟨fs, hfs⟩ := hsound.exists_facets
    exact ⟨hsound, _, Mesh.projectedAreas_of_facets hfs⟩
  · rw [Mesh.vertexCount_append] at hcount
    have hsound := hm.isWellFormed (by omega)
    obtain ⟨fs, hfs⟩ := hsound.exists_facets
    obtain ⟨gs, hgs⟩ := (hother.isWellFormed (by omega)).exists_facets
    exact ⟨fs, gs, hfs, hgs, hsound.facets_append hcount hfs hgs⟩
  · obtain ⟨hvalid, rfl⟩ := Builder.build_eq_ok_iff.mp hg
    exact Geometry.isMerged fun m hm => BuildOptions.isComposed_of_mem_meshes hvalid hm

namespace Mesh

/-- A unit square. -/
def square : Mesh Float :=
  empty.pushQuad ⟨0.0, 0.0, 0.0⟩ ⟨1.0, 0.0, 0.0⟩ ⟨1.0, 1.0, 0.0⟩ ⟨0.0, 1.0, 0.0⟩ upward

/-- A fan around the corner of a square. -/
def wheel : Mesh Float :=
  empty.pushFan ⟨1.0, 1.0, 0.0⟩ [⟨2.0, 1.0, 0.0⟩, ⟨1.0, 2.0, 0.0⟩, ⟨0.0, 0.0, 0.0⟩] upward

end Mesh

/-- Three roads that meet at the origin. -/
def tee : Network Float :=
  .ofParts "tee" 0.01 .default
    [(⟨0.0, 0.0⟩, 0.0), (⟨20.0, 0.0⟩, 0.0), (⟨0.0, 20.0⟩, 1.0), (⟨-20.0, 0.0⟩, 0.0)]
    [⟨0, 1, 0.0, "street", 0⟩, ⟨0, 2, 1.5, "street", 1⟩, ⟨3, 0, 0.0, "lane", 2⟩] []

theorem validate_tee : tee.validate = .ok () := by
  refine Network.IsCoherent.validate_eq_ok
    ⟨?_, Network.listsRoads_ofParts _ _ _ _ _ _, by decide +kernel⟩
  simp [Network.JoinsNodes, tee, Network.ofParts]

/-- A fan keeps its three triangles behind the two of a square, and so do the three roads and the
patch of a junction. -/
theorem merging_keeps_triangles_tee :
    (Mesh.square.append .wheel).IsComposed ∧ (Mesh.square.append .wheel).vertexCount = 8 ∧
      (Mesh.square.append .wheel).IsWellFormed ∧
      (∃ fs gs, Mesh.square.facets = some fs ∧ Mesh.wheel.facets = some gs ∧
        (Mesh.square.append .wheel).facets = some (fs ++ gs)) ∧
      ∃ g, ((Builder.new .default).build tee fun _ => none).2 = .ok g ∧
        g.mergedSurface.vertexCount = 57 ∧ ∃ fss, g.meshes.mapM Mesh.facets = some fss ∧
          g.mergedSurface.facets = some fss.flatten := by
  obtain ⟨hsound, happend, hbuild⟩ := merging_keeps_triangles (α := Float)
  have hsquare : Mesh.square.IsComposed := Mesh.IsComposed.empty.pushQuad ..
  have hwheel : Mesh.wheel.IsComposed := Mesh.IsComposed.empty.pushFan ..
  have hcount : (Mesh.square.append .wheel).vertexCount = 8 := rfl
  refine ⟨hsquare.append hwheel, hcount, (hsound _ (hsquare.append hwheel) (by omega)).1,
    happend _ _ hsquare hwheel (by omega), BuildOptions.default.surfaces tee fun _ => none, ?_⟩
  have hbuilt : ((Builder.new .default).build tee fun _ => none).2 =
      .ok (BuildOptions.default.surfaces tee fun _ => none) :=
    Builder.build_eq_ok_iff.mpr ⟨validate_tee, rfl⟩
  have htee : (BuildOptions.default.surfaces tee fun _ => none).mergedSurface.vertexCount = 57 := by
    decide +kernel
  obtain ⟨fss, _, hfss, hmerged, _⟩ := (hbuild _ _ _ _ hbuilt).merged (by omega)
  exact ⟨hbuilt, htee, fss, hfss, hmerged⟩

end Roadworks
