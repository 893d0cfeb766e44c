import Roadworks.Proofs.Exact.Classification
import Roadworks.Proofs.Exact.Clustering
import Roadworks.Proofs.Network.Soundness
/-! # What a network draws

The lines between the positions of nodes tell everything about a sound network but the numbers of
its nodes and roads. -/

namespace Roadworks

/-! ## Lines -/

/-- The direction of a vector that has one. -/
def directionOf {α : Type} [Scalar α] (w : Vec α) : Option (Vec α) :=
  if 0.0 < w.norm2 then some w.unit else none

open Classical

/-- The direction from a point that is one of two to the other. -/
noncomputable def directionBetween (x a b : Vec ℝ) : Option (Vec ℝ) :=
  if x = a then directionOf (b - x) else if x = b then directionOf (a - x) else none

theorem directionBetween_comm (x a b : Vec ℝ) :
    directionBetween x a b = directionBetween x b a := by
  unfold directionBetween
  by_cases ha : x = a
  · by_cases hb : x = b
    · rw [if_pos ha, if_pos hb, ← ha, ← hb]
    · rw [if_pos ha, if_neg hb, if_pos ha]
  · by_cases hb : x = b
    · rw [if_neg ha, if_pos hb, if_pos hb]
    · rw [if_neg ha, if_neg hb, if_neg hb, if_neg ha]

/-- The direction in which a line leaves a point at one of its ends. -/
noncomputable def directionFrom (x : Vec ℝ) : Sym2 (Vec ℝ) → Option (Vec ℝ) :=
  Sym2.lift ⟨directionBetween x, directionBetween_comm x⟩

/-- The length of a line. -/
noncomputable def lineLength : Sym2 (Vec ℝ) → ℝ := Sym2.lift ⟨Vec.dist, Vec.dist_comm⟩

theorem directionFrom_add (x v : Vec ℝ) (l : Sym2 (Vec ℝ)) :
    directionFrom (x + v) (l.map (· + v)) = directionFrom x l := by
  induction l with
  | h a b => simp [directionFrom, directionBetween]

theorem lineLength_add (v : Vec ℝ) (l : Sym2 (Vec ℝ)) :
    lineLength (l.map (· + v)) = lineLength l := by
  induction l with
  | h a b => simp [lineLength, Vec.dist_add_right]

namespace Network

variable {n : Network ℝ}

/-- The position of a node by its number. -/
noncomputable def positionAt (n : Network ℝ) (i : Nat) : Vec ℝ :=
  (n.nodes.map (·.position)).getD i .zero

/-- The roads as lines between positions. -/
noncomputable def lines (n : Network ℝ) : List (Sym2 (Vec ℝ)) :=
  n.edges.map fun e => e.ends.map n.positionAt

/-- A network without loops and repeated roads whose nodes lie at different positions. -/
structure IsDrawing (n : Network ℝ) : Prop extends n.IsSimple where
  listsRoads : n.ListsRoads
  nodup_positions : (n.nodes.map (·.position)).Nodup

theorem positionAt_eq {i : Nat} {v : Node ℝ} (hv : n.nodes[i]? = some v) :
    n.positionAt i = v.position := by
  rw [positionAt, List.getD_eq_getElem?_getD, List.getElem?_map, hv, Option.map_some,
    Option.getD_some]

theorem getElem?_positions {i : Nat} (hi : i < n.nodes.length) :
    (n.nodes.map (·.position))[i]? = some (n.positionAt i) := by
  have hv := List.getElem?_eq_getElem hi
  rw [List.getElem?_map, hv, Option.map_some, positionAt_eq hv]

/-! ## Ends of roads -/

theorem JoinsNodes.endpoints_eq (h : n.JoinsNodes) {k : Nat} {e : Edge ℝ}
    (he : n.edges[k]? = some e) :
    n.endpoints k = some (n.positionAt e.tail, n.positionAt e.head) := by
  rcases h e (List.mem_of_getElem? he) with ⟨htail, hhead, _⟩
  have hgettail := List.getElem?_eq_getElem htail
  have hgethead := List.getElem?_eq_getElem hhead
  rw [positionAt_eq hgettail, positionAt_eq hgethead, endpoints, he]
  simp only [Option.bind_eq_bind, Option.bind_some, hgettail, hgethead]
  rfl

theorem JoinsNodes.approach_tail (h : n.JoinsNodes) {k : Nat} {e : Edge ℝ}
    (he : n.edges[k]? = some e) :
    n.approach e.tail k = directionOf (n.positionAt e.head - n.positionAt e.tail) := by
  rcases h e (List.mem_of_getElem? he) with ⟨htail, hhead, _⟩
  have hgettail := List.getElem?_eq_getElem htail
  have hgethead := List.getElem?_eq_getElem hhead
  rw [positionAt_eq hgettail, positionAt_eq hgethead, approach, he]
  simp only [Option.bind_eq_bind, Option.bind_some, Edge.otherEnd, if_pos, hgettail, hgethead]
  rfl

theorem JoinsNodes.approach_head (h : n.JoinsNodes) {k : Nat} {e : Edge ℝ}
    (he : n.edges[k]? = some e) :
    n.approach e.head k = directionOf (n.positionAt e.tail - n.positionAt e.head) := by
  rcases h e (List.mem_of_getElem? he) with ⟨htail, hhead, hne⟩
  have hgettail := List.getElem?_eq_getElem htail
  have hgethead := List.getElem?_eq_getElem hhead
  rw [positionAt_eq hgettail, positionAt_eq hgethead, approach, he]
  simp only [Option.bind_eq_bind, Option.bind_some, Edge.otherEnd, if_neg hne.symm, if_pos,
    hgettail, hgethead]
  rfl

/-! ## Positions of nodes -/

theorem IsDrawing.positionAt_inj (h : n.IsDrawing) {i j : Nat} (hi : i < n.nodes.length)
    (hj : j < n.nodes.length) : n.positionAt i = n.positionAt j ↔ i = j := by
  refine ⟨fun heq => ?_, fun heq => by rw [heq]⟩
  have hlength : i < (n.nodes.map (·.position)).length := by simpa using hi
  refine (List.getElem?_inj hlength h.nodup_positions).mp ?_
  rw [getElem?_positions hi, getElem?_positions hj, heq]

theorem IsDrawing.touches_iff (h : n.IsDrawing) {e : Edge ℝ} (he : e ∈ n.edges) {i : Nat}
    {v : Node ℝ} (hv : n.nodes[i]? = some v) :
    e.touches i ↔ v.position ∈ e.ends.map n.positionAt := by
  rcases h.joinsNodes e he with ⟨htail, hhead, _⟩
  have hi := (List.getElem?_eq_some_iff.mp hv).1
  rw [Edge.touches_iff, Edge.ends, Sym2.map_mk, Sym2.mem_iff, ← positionAt_eq hv,
    h.positionAt_inj hi htail, h.positionAt_inj hi hhead, eq_comm, eq_comm (a := e.head)]

/-! ## Nodes in a drawing -/

/-- The number of lines that end at a point. -/
noncomputable def degreeAt (lines : List (Sym2 (Vec ℝ))) (x : Vec ℝ) : Nat :=
  lines.countP fun l => decide (x ∈ l)

/-- The kind of intersection that lines form at a point. -/
noncomputable def kindAt (rules : JunctionRules ℝ) (lines : List (Sym2 (Vec ℝ))) (x : Vec ℝ) :
    Option IntersectionType :=
  rules.classify (lines.filterMap (directionFrom x))

theorem IsDrawing.degree_eq (h : n.IsDrawing) {i : Nat} {v : Node ℝ}
    (hv : n.nodes[i]? = some v) : v.degree = degreeAt n.lines v.position := by
  rw [Node.degree, h.listsRoads i v hv, length_incidentTo, degreeAt, lines, List.countP_map]
  apply List.countP_congr
  intro e he
  rw [h.touches_iff he hv]
  simp

theorem approach_eq_none {i k : Nat} {e : Edge ℝ} (he : n.edges[k]? = some e)
    (hfree : ¬ e.touches i) : n.approach i k = none := by
  rw [Edge.touches_iff, not_or] at hfree
  rw [approach, he]
  simp [Edge.otherEnd, Ne.symm hfree.1, Ne.symm hfree.2]

theorem IsDrawing.approach_eq (h : n.IsDrawing) {i k : Nat} {v : Node ℝ} {e : Edge ℝ}
    (hv : n.nodes[i]? = some v) (he : n.edges[k]? = some e) :
    n.approach i k = directionFrom v.position (e.ends.map n.positionAt) := by
  rcases h.joinsNodes e (List.mem_of_getElem? he) with ⟨htail, hhead, _⟩
  have hi := (List.getElem?_eq_some_iff.mp hv).1
  have hlift : directionFrom v.position (e.ends.map n.positionAt) =
      if v.position = n.positionAt e.tail then directionOf (n.positionAt e.head - v.position)
      else if v.position = n.positionAt e.head then directionOf (n.positionAt e.tail - v.position)
      else none := rfl
  rw [hlift, ← positionAt_eq hv]
  simp only [h.positionAt_inj hi htail, h.positionAt_inj hi hhead]
  by_cases htaili : i = e.tail
  · rw [if_pos htaili, htaili, h.joinsNodes.approach_tail he]
  · by_cases hheadi : i = e.head
    · rw [if_neg htaili, if_pos hheadi, hheadi, h.joinsNodes.approach_head he]
    · rw [if_neg htaili, if_neg hheadi, approach_eq_none he]
      simpa [Edge.touches_iff] using ⟨Ne.symm htaili, Ne.symm hheadi⟩

theorem IsDrawing.intersectionType_eq (h : n.IsDrawing) {i : Nat} {v : Node ℝ}
    (hv : n.nodes[i]? = some v) :
    n.intersectionType i = kindAt n.rules n.lines v.position := by
  -- Roads that do not end at the node have no direction there, so all roads can be listed.
  have hroads : v.incident.filterMap (n.approach i) =
      n.lines.filterMap (directionFrom v.position) := by
    calc v.incident.filterMap (n.approach i)
        = n.edges.zipIdx.filterMap fun e =>
            if e.1.touches i then n.approach i e.2 else none := by
          rw [h.listsRoads i v hv, incidentTo, List.filterMap_map, List.filterMap_filter]
          rfl
      _ = n.edges.zipIdx.filterMap fun e =>
            directionFrom v.position (e.1.ends.map n.positionAt) := by
          apply List.filterMap_congr
          rintro ⟨e, k⟩ hmem
          have he := List.mem_zipIdx_iff_getElem?.mp hmem
          have happroach := h.approach_eq hv he
          dsimp only
          split
          · exact happroach
          · next hfree => rw [← happroach, approach_eq_none he hfree]
      _ = n.lines.filterMap (directionFrom v.position) := by
          rw [lines, List.filterMap_map]
          conv => rhs; rw [← List.zipIdx_map_fst 0 n.edges, List.filterMap_map]
          rfl
  rw [intersectionType, hv, kindAt, ← hroads]

/-! ## Nodes and lines -/

/-- The nodes lie where lines end. -/
theorem IsDrawing.mem_positions_iff (h : n.IsDrawing) {x : Vec ℝ} :
    x ∈ n.nodes.map (·.position) ↔ ∃ l ∈ n.lines, x ∈ l := by
  constructor
  · intro hx
    rcases List.mem_map.mp hx with ⟨v, hmem, rfl⟩
    rcases List.mem_iff_getElem?.mp hmem with ⟨i, hv⟩
    have hdegree := h.one_le_degree v hmem
    rw [h.degree_eq hv, degreeAt] at hdegree
    rcases List.countP_pos_iff.mp hdegree with ⟨l, hl, hend⟩
    exact ⟨l, hl, of_decide_eq_true hend⟩
  · rintro ⟨l, hl, hx⟩
    rcases List.mem_map.mp hl with ⟨e, he, rfl⟩
    rcases h.joinsNodes e he with ⟨htail, hhead, _⟩
    rw [Edge.ends, Sym2.map_mk, Sym2.mem_iff] at hx
    rcases hx with rfl | rfl
    · exact List.mem_of_getElem? (getElem?_positions htail)
    · exact List.mem_of_getElem? (getElem?_positions hhead)

theorem IsDrawing.nodup_lines (h : n.IsDrawing) : n.lines.Nodup := by
  rw [lines, List.Nodup, List.pairwise_map]
  apply h.pairwise_ends.imp_of_mem
  intro e f he hf hne heq
  rcases h.joinsNodes e he with ⟨htail, hhead, _⟩
  rcases h.joinsNodes f hf with ⟨htail', hhead', _⟩
  apply hne
  simpa only [Edge.ends, Sym2.map_mk, Sym2.eq_iff, h.positionAt_inj htail htail',
    h.positionAt_inj htail hhead', h.positionAt_inj hhead htail',
    h.positionAt_inj hhead hhead'] using heq

/-! ## Lengths and counts -/

theorem JoinsNodes.edgeLength_eq (h : n.JoinsNodes) {k : Nat} {e : Edge ℝ}
    (he : n.edges[k]? = some e) :
    n.edgeLength k = some (lineLength (e.ends.map n.positionAt)) := by
  rw [edgeLength, h.endpoints_eq he]
  rfl

theorem sum_eq (l : List ℝ) : Scalar.sum l = l.sum := by
  have hzero : (-0.0 : ℝ) = 0 := by norm_num
  rw [Scalar.sum, hzero, List.sum_eq_foldl]

theorem JoinsNodes.totalLength_eq (h : n.JoinsNodes) :
    n.summary.totalLength = (n.lines.map lineLength).sum := by
  have hlengths : (List.range n.edges.length).filterMap n.edgeLength = n.lines.map lineLength := by
    calc (List.range n.edges.length).filterMap n.edgeLength
        = n.edges.zipIdx.filterMap fun e => n.edgeLength e.2 := by
          rw [List.range_eq_range', ← List.zipIdx_map_snd, List.filterMap_map]
          rfl
      _ = n.edges.zipIdx.filterMap fun e => some (lineLength (e.1.ends.map n.positionAt)) := by
          apply List.filterMap_congr
          rintro ⟨e, k⟩ hmem
          exact h.edgeLength_eq (List.mem_zipIdx_iff_getElem?.mp hmem)
      _ = n.lines.map lineLength := by
          rw [List.filterMap_eq_map', lines, List.map_map]
          conv => rhs; rw [← List.zipIdx_map_fst 0 n.edges, List.map_map]
          rfl
  rw [summary, hlengths, sum_eq]

theorem IsDrawing.countNodes_eq (h : n.IsDrawing) (p : Nat → Option IntersectionType → Bool) :
    n.countNodes p = (n.nodes.map (·.position)).countP fun x =>
      p (degreeAt n.lines x) (kindAt n.rules n.lines x) := by
  rw [countNodes, List.countP_map, ← List.zipIdx_map_fst 0 n.nodes, List.countP_map,
    List.zipIdx_map_fst]
  apply List.countP_congr
  rintro ⟨v, i⟩ hmem
  have hv := List.mem_zipIdx_iff_getElem?.mp hmem
  simp [h.degree_eq hv, h.intersectionType_eq hv]

end Network

end Roadworks
