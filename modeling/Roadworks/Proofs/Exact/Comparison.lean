import Roadworks.Proofs.Exact.Components
/-! # Networks that differ in their origin

Two networks with the same rules whose lines are the same when all of them are moved agree in
everything that can be told without numbers. -/

namespace Roadworks

open Relation

/-! ## Moved lines -/

/-- Lines with all their ends moved. -/
noncomputable def moved (v : Vec ℝ) (lines : List (Sym2 (Vec ℝ))) : List (Sym2 (Vec ℝ)) :=
  lines.map (Sym2.map (· + v))

theorem map_add_mem_moved_iff {v : Vec ℝ} {lines : List (Sym2 (Vec ℝ))} {l : Sym2 (Vec ℝ)} :
    l.map (· + v) ∈ moved v lines ↔ l ∈ lines := by
  rw [moved, List.mem_map_of_injective (Sym2.map.injective (add_left_injective v))]

theorem add_mem_map_add_iff {v x : Vec ℝ} {l : Sym2 (Vec ℝ)} : x + v ∈ l.map (· + v) ↔ x ∈ l := by
  rw [Sym2.mem_map]
  constructor
  · rintro ⟨y, hy, heq⟩
    rwa [← add_right_cancel heq]
  · intro hx
    exact ⟨x, hx, rfl⟩

namespace Network

variable {n m : Network ℝ} {v : Vec ℝ}

theorem degreeAt_moved (v x : Vec ℝ) (lines : List (Sym2 (Vec ℝ))) :
    degreeAt (moved v lines) (x + v) = degreeAt lines x := by
  rw [degreeAt, degreeAt, moved, List.countP_map]
  apply List.countP_congr
  intro l _
  simp

theorem kindAt_moved (rules : JunctionRules ℝ) (v x : Vec ℝ) (lines : List (Sym2 (Vec ℝ))) :
    kindAt rules (moved v lines) (x + v) = kindAt rules lines x := by
  have hdirection : directionFrom (x + v) ∘ Sym2.map (· + v) = directionFrom x :=
    funext (directionFrom_add x v)
  rw [kindAt, kindAt, moved, List.filterMap_map, hdirection]

theorem degreeAt_perm {k l : List (Sym2 (Vec ℝ))} (h : k.Perm l) (x : Vec ℝ) :
    degreeAt k x = degreeAt l x :=
  h.countP_eq _

theorem kindAt_perm (rules : JunctionRules ℝ) {k l : List (Sym2 (Vec ℝ))} (h : k.Perm l)
    (x : Vec ℝ) : kindAt rules k x = kindAt rules l x :=
  JunctionRules.classify_perm (h.filterMap _)

/-! ## What two networks have in common -/

/-- A road leads from the one position to the other, in whatever direction. -/
def Joins (n : Network ℝ) (x y : Vec ℝ) : Prop :=
  ∃ k a b, n.endpoints k = some (a, b) ∧ s(a, b) = s(x, y)

/-- Two networks are the same when the first is moved: they have the same positions, the same pairs
of positions are joined, nodes at one position have the same degree and kind, and there is the same
in both. -/
structure SameUpTo (v : Vec ℝ) (n m : Network ℝ) : Prop where
  positions : ∀ x, x + v ∈ m.nodes.map (·.position) ↔ x ∈ n.nodes.map (·.position)
  joins : ∀ x y, m.Joins (x + v) (y + v) ↔ n.Joins x y
  degree : ∀ (i j : Nat) (a b : Node ℝ), n.nodes[i]? = some a → m.nodes[j]? = some b →
    b.position = a.position + v → b.degree = a.degree
  intersectionType : ∀ (i j : Nat) (a b : Node ℝ), n.nodes[i]? = some a → m.nodes[j]? = some b →
    b.position = a.position + v → m.intersectionType j = n.intersectionType i
  summary : m.summary = n.summary

theorem IsDrawing.joins_iff (h : n.IsDrawing) {x y : Vec ℝ} : n.Joins x y ↔ s(x, y) ∈ n.lines := by
  rw [lines, List.mem_map]
  constructor
  · rintro ⟨k, a, b, hk, hline⟩
    cases he : n.edges[k]? with
    | none =>
        rw [endpoints, he] at hk
        cases hk
    | some e =>
        rw [h.joinsNodes.endpoints_eq he] at hk
        rcases Prod.mk.inj (Option.some.inj hk) with ⟨rfl, rfl⟩
        exact ⟨e, List.mem_of_getElem? he, hline⟩
  · rintro ⟨e, he, hline⟩
    rcases List.mem_iff_getElem?.mp he with ⟨k, hk⟩
    exact ⟨k, _, _, h.joinsNodes.endpoints_eq hk, hline⟩

/-! ## Networks with moved lines -/

/-- Both networks are drawings by the same rules, and the lines of the second are those of the
first, moved and in some order. -/
structure IsMoved (v : Vec ℝ) (n m : Network ℝ) : Prop where
  isDrawing_left : n.IsDrawing
  isDrawing_right : m.IsDrawing
  rules_eq : m.rules = n.rules
  perm_lines : m.lines.Perm (moved v n.lines)

theorem IsMoved.symm (h : IsMoved v n m) : IsMoved (-v) m n := by
  refine ⟨h.isDrawing_right, h.isDrawing_left, h.rules_eq.symm, ?_⟩
  have hback : (fun x : Vec ℝ => x + -v) ∘ (fun x => x + v) = id := by
    funext x
    exact add_neg_cancel_right x v
  have hself : moved (-v) (moved v n.lines) = n.lines := by
    rw [moved, moved, List.map_map, Sym2.map_comp.symm, hback, Sym2.map_id, List.map_id]
  rw [← hself]
  exact (h.perm_lines.map _).symm

theorem IsMoved.mem_lines_iff (h : IsMoved v n m) (x y : Vec ℝ) :
    s(x + v, y + v) ∈ m.lines ↔ s(x, y) ∈ n.lines := by
  rw [h.perm_lines.mem_iff]
  exact map_add_mem_moved_iff (l := s(x, y))

theorem IsMoved.mem_positions_iff (h : IsMoved v n m) (x : Vec ℝ) :
    x + v ∈ m.nodes.map (·.position) ↔ x ∈ n.nodes.map (·.position) := by
  rw [h.isDrawing_left.mem_positions_iff, h.isDrawing_right.mem_positions_iff]
  constructor
  · rintro ⟨l, hl, hx⟩
    rw [h.perm_lines.mem_iff, moved, List.mem_map] at hl
    obtain ⟨k, hk, rfl⟩ := hl
    exact ⟨k, hk, add_mem_map_add_iff.mp hx⟩
  · rintro ⟨l, hl, hx⟩
    exact ⟨l.map (· + v), h.perm_lines.mem_iff.mpr (map_add_mem_moved_iff.mpr hl),
      add_mem_map_add_iff.mpr hx⟩

theorem IsMoved.perm_positions (h : IsMoved v n m) :
    (m.nodes.map (·.position)).Perm ((n.nodes.map (·.position)).map (· + v)) := by
  have hinj : Function.Injective fun x : Vec ℝ => x + v := add_left_injective v
  refine (List.perm_ext_iff_of_nodup h.isDrawing_right.nodup_positions
    (h.isDrawing_left.nodup_positions.map hinj)).mpr fun y => ?_
  have hy : y = y - v + v := (sub_add_cancel y v).symm
  rw [hy, h.mem_positions_iff, List.mem_map_of_injective hinj]

theorem IsMoved.degreeAt_eq (h : IsMoved v n m) (x : Vec ℝ) :
    degreeAt m.lines (x + v) = degreeAt n.lines x := by
  rw [degreeAt_perm h.perm_lines, degreeAt_moved]

theorem IsMoved.kindAt_eq (h : IsMoved v n m) (x : Vec ℝ) :
    kindAt m.rules m.lines (x + v) = kindAt n.rules n.lines x := by
  rw [kindAt_perm m.rules h.perm_lines, kindAt_moved, h.rules_eq]

theorem IsMoved.countNodes_eq (h : IsMoved v n m) (p : Nat → Option IntersectionType → Bool) :
    m.countNodes p = n.countNodes p := by
  rw [h.isDrawing_right.countNodes_eq, h.isDrawing_left.countNodes_eq,
    h.perm_positions.countP_eq, List.countP_map]
  apply List.countP_congr
  intro x _
  rw [Function.comp_apply, h.degreeAt_eq, h.kindAt_eq]

theorem IsMoved.totalLength_eq (h : IsMoved v n m) :
    m.summary.totalLength = n.summary.totalLength := by
  have hlength : lineLength ∘ Sym2.map (· + v) = lineLength := funext (lineLength_add v)
  rw [h.isDrawing_right.joinsNodes.totalLength_eq, h.isDrawing_left.joinsNodes.totalLength_eq,
    (h.perm_lines.map lineLength).sum_eq, moved, List.map_map, hlength]

/-- The moved network has no fewer components, since nodes that are joined there were joined
before. -/
theorem IsMoved.length_components_le (h : IsMoved v n m) :
    n.components.length ≤ m.components.length := by
  have hnumber (i : Nat) : ∃ j, i < n.nodes.length →
      j < m.nodes.length ∧ m.positionAt j = n.positionAt i + v := by
    by_cases hi : i < n.nodes.length
    · have hmem := (h.mem_positions_iff _).mpr (List.mem_of_getElem? (getElem?_positions hi))
      rcases List.mem_iff_getElem?.mp hmem with ⟨j, hj⟩
      have hlt : j < m.nodes.length := by simpa using (List.getElem?_eq_some_iff.mp hj).1
      exact ⟨j, fun _ => ⟨hlt, Option.some.inj ((getElem?_positions hlt).symm.trans hj)⟩⟩
    · exact ⟨0, fun hlt => absurd hlt hi⟩
  -- The node of a position is sent to the node at the moved position.
  choose f hf using hnumber
  have hlines : (fun x y => s(x, y) ∈ m.lines) =
      Linkage.shifted v fun x y => s(x, y) ∈ n.lines := by
    funext x y
    rw [Linkage.shifted, ← h.mem_lines_iff, sub_add_cancel, sub_add_cancel]
  rw [length_components, length_components]
  refine DisjointSet.length_leaders_le_of_map (fun i hi => (hf i hi).1) fun i hi j hj hroot => ?_
  rw [h.isDrawing_right.root_joined_eq_iff (hf i hi).1 (hf j hj).1, (hf i hi).2, (hf j hj).2,
    hlines, Linkage.eqvGen_shifted, Linkage.shifted, add_sub_cancel_right,
    add_sub_cancel_right] at hroot
  exact (h.isDrawing_left.root_joined_eq_iff hi hj).mpr hroot

theorem IsMoved.summary_eq (h : IsMoved v n m) : m.summary = n.summary := by
  have hnodes : m.nodes.length = n.nodes.length := by
    simpa using h.perm_positions.length_eq
  have hedges : m.edges.length = n.edges.length := by
    simpa [lines, moved] using h.perm_lines.length_eq
  have hcomponents : m.components.length = n.components.length :=
    Nat.le_antisymm h.symm.length_components_le h.length_components_le
  have hlength := h.totalLength_eq
  simp only [summary, hedges] at hlength
  simp only [summary, h.countNodes_eq, hnodes, hedges, hcomponents, hlength]

/-- Networks with moved lines are the same when the first is moved. -/
theorem IsMoved.sameUpTo (h : IsMoved v n m) : SameUpTo v n m where
  positions := h.mem_positions_iff
  joins x y := by
    rw [h.isDrawing_left.joins_iff, h.isDrawing_right.joins_iff, h.mem_lines_iff]
  degree i j a b ha hb hposition := by
    rw [h.isDrawing_left.degree_eq ha, h.isDrawing_right.degree_eq hb, hposition, h.degreeAt_eq]
  intersectionType i j a b ha hb hposition := by
    rw [h.isDrawing_left.intersectionType_eq ha, h.isDrawing_right.intersectionType_eq hb,
      hposition, h.kindAt_eq]
  summary := h.summary_eq

end Network

end Roadworks
