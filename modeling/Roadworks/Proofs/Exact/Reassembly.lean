import Roadworks.Proofs.Assembly.Order
import Roadworks.Proofs.Exact.Rearrangement
/-! # Assembling a network again

The ends of the roads of an assembled network are equal or apart. So when its roads are taken as
segments again, nothing is merged or dropped, and over the reals the same network results. -/

namespace Roadworks

open Linkage

variable {o : AssemblyOptions ℝ}

/-! ## Roads as segments -/

namespace Network

variable {n m : Network ℝ}

theorem endpoints_eq_none {k : Nat} (h : n.edges.length ≤ k) : n.endpoints k = none := by
  rw [endpoints, List.getElem?_eq_none h]
  rfl

theorem IsDrawing.toSegments_eq (h : n.IsDrawing) :
    n.toSegments = n.edges.zipIdx.map fun (e, k) => ⟨k, n.positionAt e.tail, n.positionAt e.head,
      (n.positionAt e.head - n.positionAt e.tail).heading, e.styleClass⟩ := by
  have hdrawn : (n.edges.zipIdx.filterMap fun (e, k) => (n.endpoints k).map fun (a, b) => (e, a, b)) =
      n.edges.map fun e => (e, n.positionAt e.tail, n.positionAt e.head) := by
    calc (n.edges.zipIdx.filterMap fun (e, k) => (n.endpoints k).map fun (a, b) => (e, a, b))
        = n.edges.zipIdx.filterMap fun e =>
            some (e.1, n.positionAt e.1.tail, n.positionAt e.1.head) := by
          apply List.filterMap_congr
          intro e he
          have hget := List.mem_zipIdx_iff_getElem?.mp he
          dsimp only
          rw [h.joinsNodes.endpoints_eq hget, Option.map_some]
      _ = n.edges.map fun e => (e, n.positionAt e.tail, n.positionAt e.head) := by
          rw [List.filterMap_eq_map']
          conv => rhs; rw [← List.zipIdx_map_fst 0 n.edges, List.map_map]
          rfl
  rw [toSegments, hdrawn, List.zipIdx_map, List.map_map]
  rfl

theorem IsDrawing.getElem?_toSegments (h : n.IsDrawing) (k : Nat) :
    n.toSegments[k]? = n.edges[k]?.map fun e => ⟨k, n.positionAt e.tail, n.positionAt e.head,
      (n.positionAt e.head - n.positionAt e.tail).heading, e.styleClass⟩ := by
  rw [h.toSegments_eq, List.getElem?_map, List.getElem?_zipIdx, Option.map_map, Nat.zero_add]
  rfl

theorem IsDrawing.map_line_toSegments (h : n.IsDrawing) :
    n.toSegments.map RoadSegment.line = n.lines := by
  apply List.ext_getElem?
  intro k
  rw [List.getElem?_map, h.getElem?_toSegments, lines, List.getElem?_map, Option.map_map]
  rfl

theorem IsDrawing.segmentEnds_toSegments (h : n.IsDrawing) :
    segmentEnds n.toSegments =
      n.edges.flatMap fun e => [n.positionAt e.tail, n.positionAt e.head] := by
  rw [segmentEnds, h.toSegments_eq, List.flatMap_map]
  conv => rhs; rw [← List.zipIdx_map_fst 0 n.edges, List.flatMap_map]

theorem IsDrawing.endpoints_eq_getElem? (h : n.IsDrawing) (k : Nat) :
    n.endpoints k = n.toSegments[k]?.map fun s => (s.start, s.stop) := by
  rw [h.getElem?_toSegments, Option.map_map]
  cases he : n.edges[k]? with
  | none => rw [endpoints_eq_none (List.getElem?_eq_none_iff.mp he), Option.map_none]
  | some e => exact h.joinsNodes.endpoints_eq he

/-- Roads between the same positions have the same ends as segments. -/
theorem IsDrawing.map_ends_eq (hn : n.IsDrawing) (hm : m.IsDrawing)
    (h : ∀ k, m.endpoints k = n.endpoints k) :
    (m.toSegments.map fun s => (s.start, s.stop)) = n.toSegments.map fun s => (s.start, s.stop) := by
  apply List.ext_getElem?
  intro k
  rw [List.getElem?_map, List.getElem?_map, ← hn.endpoints_eq_getElem?, ← hm.endpoints_eq_getElem?,
    h]

theorem IsDrawing.lines_eq (hn : n.IsDrawing) (hm : m.IsDrawing)
    (h : ∀ k, m.endpoints k = n.endpoints k) : m.lines = n.lines := by
  have heq := congrArg (List.map fun p : Vec ℝ × Vec ℝ => s(p.1, p.2)) (hn.map_ends_eq hm h)
  rw [List.map_map, List.map_map] at heq
  rw [← hn.map_line_toSegments, ← hm.map_line_toSegments]
  exact heq

theorem IsDrawing.segmentEnds_eq (hn : n.IsDrawing) (hm : m.IsDrawing)
    (h : ∀ k, m.endpoints k = n.endpoints k) :
    segmentEnds m.toSegments = segmentEnds n.toSegments := by
  have heq := congrArg (List.flatMap fun p : Vec ℝ × Vec ℝ => [p.1, p.2]) (hn.map_ends_eq hm h)
  rwa [List.flatMap_map, List.flatMap_map] at heq

theorem IsDrawing.mem_positions_of_mem_segmentEnds (h : n.IsDrawing) {p : Vec ℝ}
    (hp : p ∈ segmentEnds n.toSegments) : p ∈ n.nodes.map (·.position) := by
  obtain ⟨s, hs, hp⟩ := mem_segmentEnds_iff.mp hp
  have hline : s.line ∈ n.lines := by
    rw [← h.map_line_toSegments]
    exact List.mem_map_of_mem hs
  exact h.mem_positions_iff.mpr ⟨s.line, hline, Sym2.mem_iff.mpr hp⟩

/-- A second network repeats the first: it has no reports, as many nodes and roads, the roads in the
same order between the same positions in the same style, and nodes at the same positions with the
same degrees and kinds. They even stand in the same order, unless a segment has shrunk in the first. -/
structure Repeats (n m : Network ℝ) : Prop where
  dropped_eq : m.dropped = []
  length_nodes : m.nodes.length = n.nodes.length
  length_edges : m.edges.length = n.edges.length
  endpoints : ∀ k, m.endpoints k = n.endpoints k
  styles : m.edges.map (·.styleClass) = n.edges.map (·.styleClass)
  positions : ∀ x, x ∈ m.nodes.map (·.position) ↔ x ∈ n.nodes.map (·.position)
  degree : ∀ (i j : Nat) (a b : Node ℝ), n.nodes[i]? = some a → m.nodes[j]? = some b →
    b.position = a.position → b.degree = a.degree
  intersectionType : ∀ (i j : Nat) (a b : Node ℝ), n.nodes[i]? = some a → m.nodes[j]? = some b →
    b.position = a.position → m.intersectionType j = n.intersectionType i
  order : (∀ i, .degenerate i ∉ n.dropped) →
    m.nodes.map (·.position) = n.nodes.map (·.position)

end Network

namespace AssemblyOptions

variable {segments : List (RoadSegment ℝ)}

/-! ## Nothing is merged -/

/-- The roads of the network that is made of the segments, as segments. -/
noncomputable def redrawn (o : AssemblyOptions ℝ) (segments : List (RoadSegment ℝ)) :
    List (RoadSegment ℝ) :=
  (o.network segments).toSegments

theorem isApart_redrawn (hvalid : o.IsValid) (segments : List (RoadSegment ℝ)) :
    IsApart o.mergeTolerance (segmentEnds (o.redrawn segments)) := by
  have hdrawing := isDrawing_network hvalid segments
  have hapart := nearPairs_eq_nil_iff.mp (o.nearPairs_positions_network segments)
  have hsymm : Std.Symm fun q p : Vec ℝ => ¬ IsNear o.mergeTolerance q p :=
    ⟨fun _ _ h => (isNear_comm hvalid.tolerance_pos).not.mp h⟩
  intro p hp q hq hnear
  by_contra hne
  exact hapart.forall (hdrawing.mem_positions_of_mem_segmentEnds hp)
    (hdrawing.mem_positions_of_mem_segmentEnds hq) hne hnear

/-- Every end of a road is at home where it is. -/
theorem home_redrawn (hvalid : o.IsValid) {p : Vec ℝ} (hp : p ∈ segmentEnds (o.redrawn segments)) :
    home o.mergeTolerance (segmentEnds (o.redrawn segments)) p = p :=
  home_eq_of_isApart (isApart_redrawn hvalid segments) hp

theorem map_home_line_redrawn (hvalid : o.IsValid) {s : RoadSegment ℝ}
    (hs : s ∈ o.redrawn segments) :
    s.line.map (home o.mergeTolerance (segmentEnds (o.redrawn segments))) = s.line := by
  rw [RoadSegment.line, Sym2.map_mk, home_redrawn hvalid (mem_segmentEnds_iff.mpr ⟨s, hs, .inl rfl⟩),
    home_redrawn hvalid (mem_segmentEnds_iff.mpr ⟨s, hs, .inr rfl⟩)]

/-! ## Nothing is dropped -/

theorem getElem?_lines_of_redrawn (hvalid : o.IsValid) {k : Nat} {s : RoadSegment ℝ}
    (hs : (o.redrawn segments)[k]? = some s) :
    (o.network segments).lines[k]? = some s.line := by
  rw [← (isDrawing_network hvalid segments).map_line_toSegments, List.getElem?_map, ← redrawn, hs,
    Option.map_some]

theorem map_placeOf_ends_redrawn (hvalid : o.IsValid) {k : Nat} {p : Placed ℝ}
    (hp : (o.placed (o.redrawn segments))[k]? = some p) :
    ∃ s, (o.redrawn segments)[k]? = some s ∧
      p.ends.map (o.placeOf (o.redrawn segments)) = s.line := by
  have hsegment := hp
  rw [getElem?_placed, Option.map_eq_some_iff] at hsegment
  obtain ⟨s, hs, _⟩ := hsegment
  refine ⟨s, hs, ?_⟩
  rw [map_placeOf_ends hvalid hs hp, map_home_line_redrawn hvalid (List.mem_of_getElem? hs)]

/-- Every road is kept when it is drawn again, since the lines of a network neither shrink nor
repeat. -/
theorem fates_redrawn_eq_none (hvalid : o.IsValid) {k : Nat} {p : Placed ℝ}
    (hp : (o.placed (o.redrawn segments))[k]? = some p) :
    (o.fates (o.redrawn segments))[k]? = some none := by
  obtain ⟨s, hs, hends⟩ := map_placeOf_ends_redrawn hvalid hp
  have hline := getElem?_lines_of_redrawn hvalid hs
  refine (Placed.fates_eq_none_iff hp).mpr ⟨?_, ?_⟩
  · rw [isDiag_ends_iff_isDiag_line hvalid hs hp,
      map_home_line_redrawn hvalid (List.mem_of_getElem? hs)]
    exact ((mem_lines_network_iff hvalid).mp (List.mem_of_getElem? hline)).1
  · intro j hj q hq heq
    obtain ⟨t, ht, hends'⟩ := map_placeOf_ends_redrawn hvalid hq
    have hline' := getElem?_lines_of_redrawn hvalid ht
    have hsame : t.line = s.line := by rw [← hends', ← hends, heq]
    have hlength := (List.getElem?_eq_some_iff.mp hline').1
    have hnumber := (List.getElem?_inj hlength (isDrawing_network hvalid segments).nodup_lines).mp
      (hline'.trans ((congrArg some hsame).trans hline.symm))
    omega

theorem fates_redrawn (hvalid : o.IsValid) (segments : List (RoadSegment ℝ)) :
    o.fates (o.redrawn segments) = (o.placed (o.redrawn segments)).map fun _ => none := by
  apply List.ext_getElem?
  intro k
  rw [List.getElem?_map]
  cases hp : (o.placed (o.redrawn segments))[k]? with
  | none =>
      rw [Option.map_none, List.getElem?_eq_none_iff, fates, Placed.length_fates]
      exact List.getElem?_eq_none_iff.mp hp
  | some p => exact fates_redrawn_eq_none hvalid hp

theorem kept_redrawn (hvalid : o.IsValid) (segments : List (RoadSegment ℝ)) :
    o.kept (o.redrawn segments) = o.placed (o.redrawn segments) := by
  rw [kept, fates_redrawn hvalid, Placed.keptOf_map_none]

theorem dropped_redrawn (hvalid : o.IsValid) (segments : List (RoadSegment ℝ)) :
    (o.network (o.redrawn segments)).dropped = [] := by
  have hdropped : (o.network (o.redrawn segments)).dropped =
      (o.fates (o.redrawn segments)).filterMap id := rfl
  rw [hdropped, fates_redrawn hvalid, List.filterMap_map]
  simp

/-! ## The same roads -/

theorem getElem?_edges_redrawn (hvalid : o.IsValid) {k : Nat} {s : RoadSegment ℝ}
    (hs : (o.redrawn segments)[k]? = some s) :
    (o.network (o.redrawn segments)).edges[k]? = some (o.edgeOf (o.redrawn segments)
      ⟨s, (o.clusters (o.redrawn segments)).tailOf k,
        (o.clusters (o.redrawn segments)).headOf k⟩) := by
  rw [edges_network_eq, List.getElem?_map, kept_redrawn hvalid, getElem?_placed, hs,
    Option.map_some, Option.map_some]

theorem length_edges_redrawn (hvalid : o.IsValid) (segments : List (RoadSegment ℝ)) :
    (o.network (o.redrawn segments)).edges.length = (o.network segments).edges.length := by
  rw [edges_network_eq, List.length_map, kept_redrawn hvalid, length_placed, redrawn,
    (isDrawing_network hvalid segments).toSegments_eq, List.length_map, List.length_zipIdx]

theorem endpoints_redrawn (hvalid : o.IsValid) (segments : List (RoadSegment ℝ)) (k : Nat) :
    (o.network (o.redrawn segments)).endpoints k = (o.network segments).endpoints k := by
  have hdrawing := isDrawing_network hvalid segments
  cases he : (o.network segments).edges[k]? with
  | none =>
      have hlength := List.getElem?_eq_none_iff.mp he
      have hlength' := hlength
      rw [← length_edges_redrawn hvalid] at hlength'
      rw [Network.endpoints_eq_none hlength, Network.endpoints_eq_none hlength']
  | some e =>
      have hs := hdrawing.getElem?_toSegments k
      rw [he, Option.map_some, ← redrawn] at hs
      have hplaced := o.getElem?_placed (o.redrawn segments) k
      rw [hs, Option.map_some, ← kept_redrawn hvalid] at hplaced
      have hkept := List.mem_of_getElem? hplaced
      obtain ⟨hstart, hstop⟩ := getElem?_segmentEnds hs
      obtain ⟨htail, hhead⟩ := placeOf_tailOf_headOf hvalid hs
      rw [home_redrawn hvalid (List.mem_of_getElem? hstart)] at htail
      rw [home_redrawn hvalid (List.mem_of_getElem? hstop)] at hhead
      rw [hdrawing.joinsNodes.endpoints_eq he, (isDrawing_network hvalid _).joinsNodes.endpoints_eq
        (getElem?_edges_redrawn hvalid hs), edgeOf, positionAt_network (tail_mem_used hkept),
        positionAt_network (head_mem_used hkept), htail, hhead]

theorem styles_redrawn (hvalid : o.IsValid) (segments : List (RoadSegment ℝ)) :
    (o.network (o.redrawn segments)).edges.map (·.styleClass) =
      (o.network segments).edges.map (·.styleClass) := by
  have hdrawing := isDrawing_network hvalid segments
  apply List.ext_getElem?
  intro k
  rw [List.getElem?_map, List.getElem?_map]
  cases he : (o.network segments).edges[k]? with
  | none =>
      have hlength := List.getElem?_eq_none_iff.mp he
      rw [← length_edges_redrawn hvalid] at hlength
      rw [List.getElem?_eq_none hlength]
  | some e =>
      have hs := hdrawing.getElem?_toSegments k
      rw [he, Option.map_some, ← redrawn] at hs
      rw [getElem?_edges_redrawn hvalid hs]
      rfl

/-- The lines of both networks are the same, so their nodes cannot be told apart by position. -/
theorem isMoved_redrawn (hvalid : o.IsValid) (segments : List (RoadSegment ℝ)) :
    Network.IsMoved 0 (o.network segments) (o.network (o.redrawn segments)) where
  isDrawing_left := isDrawing_network hvalid segments
  isDrawing_right := isDrawing_network hvalid (o.redrawn segments)
  rules_eq := (rules_network o _).trans (rules_network o segments).symm
  perm_lines := by
    have hlines := (isDrawing_network hvalid segments).lines_eq
      (isDrawing_network hvalid (o.redrawn segments)) (endpoints_redrawn hvalid segments)
    have hmoved : moved 0 (o.network segments).lines = (o.network segments).lines := by
      simp [moved]
    rw [hlines, hmoved]

/-! ## The same order of nodes -/

theorem placeOf_inj (hvalid : o.IsValid) {c d : Nat} (hc : c ∈ o.used segments)
    (hd : d ∈ o.used segments) (h : o.placeOf segments c = o.placeOf segments d) : c = d := by
  have hnodup := (isDrawing_network hvalid segments).nodup_positions
  rw [map_position_network] at hnodup
  exact List.inj_on_of_nodup_map hnodup hc hd h

/-- The clusters of the kept segments lie at the ends of the roads. -/
theorem map_placeOf_corners_kept (hvalid : o.IsValid) (segments : List (RoadSegment ℝ)) :
    (Placed.corners (o.kept segments)).map (o.placeOf segments) =
      segmentEnds (o.network segments).toSegments := by
  rw [(isDrawing_network hvalid segments).segmentEnds_toSegments, edges_network_eq,
    List.flatMap_map, Placed.corners, List.map_flatMap]
  apply List.flatMap_congr
  intro p hp
  rw [edgeOf, positionAt_network (tail_mem_used hp), positionAt_network (head_mem_used hp)]
  rfl

theorem fates_ne_degenerate_of_dropped (h : ∀ i, .degenerate i ∉ (o.network segments).dropped) :
    ∀ i, some (.degenerate i) ∉ o.fates segments := by
  intro i hi
  exact h i (List.mem_filterMap.mpr ⟨_, hi, rfl⟩)

/-- Where no segment shrinks, both networks have their nodes in the order in which their roads meet
them. -/
theorem positions_redrawn (hvalid : o.IsValid)
    (h : ∀ i, .degenerate i ∉ (o.network segments).dropped) :
    (o.network (o.redrawn segments)).nodes.map (·.position) =
      (o.network segments).nodes.map (·.position) := by
  have hends : (Placed.corners (o.kept (o.redrawn segments))).map (o.placeOf (o.redrawn segments)) =
      (Placed.corners (o.kept segments)).map (o.placeOf segments) := by
    rw [map_placeOf_corners_kept hvalid, map_placeOf_corners_kept hvalid]
    exact (isDrawing_network hvalid segments).segmentEnds_eq
      (isDrawing_network hvalid (o.redrawn segments)) (endpoints_redrawn hvalid segments)
  have hinj (segments : List (RoadSegment ℝ)) : ∀ c ∈ Placed.corners (o.kept segments),
      ∀ d ∈ Placed.corners (o.kept segments),
        o.placeOf segments c = o.placeOf segments d → c = d := by
    intro c hc d hd
    exact placeOf_inj hvalid (mem_used_iff.mpr (Placed.mem_corners_iff.mp hc))
      (mem_used_iff.mpr (Placed.mem_corners_iff.mp hd))
  have hredrawn : ∀ i, .degenerate i ∉ (o.network (o.redrawn segments)).dropped := by
    rw [dropped_redrawn hvalid]
    exact fun _ => List.not_mem_nil
  rw [map_position_network, map_position_network,
    used_eq_eraseDups (fates_ne_degenerate_of_dropped h),
    used_eq_eraseDups (fates_ne_degenerate_of_dropped hredrawn)]
  exact map_eraseDups_eq (hinj _) (hinj _) hends

theorem repeats_redrawn (hvalid : o.IsValid) (segments : List (RoadSegment ℝ)) :
    Network.Repeats (o.network segments) (o.network (o.redrawn segments)) := by
  have hmoved := isMoved_redrawn hvalid segments
  have hsame := hmoved.sameUpTo
  constructor
  case dropped_eq => exact dropped_redrawn hvalid segments
  case length_nodes => simpa using hmoved.perm_positions.length_eq
  case length_edges => exact length_edges_redrawn hvalid segments
  case endpoints => exact endpoints_redrawn hvalid segments
  case styles => exact styles_redrawn hvalid segments
  case positions =>
    intro x
    simpa using hsame.positions x
  case degree =>
    intro i j a b ha hb hposition
    exact hsame.degree i j a b ha hb (by rw [hposition, add_zero])
  case intersectionType =>
    intro i j a b ha hb hposition
    exact hsame.intersectionType i j a b ha hb (by rw [hposition, add_zero])
  case order => exact positions_redrawn hvalid

end AssemblyOptions

/-- Over the reals, assembling the roads of an assembled network again repeats it. -/
theorem assemble_toSegments (hvalid : o.IsValid) (segments : List (RoadSegment ℝ)) :
    ∃ n m, o.assemble segments = .ok n ∧ o.assemble n.toSegments = .ok m ∧ n.Repeats m :=
  ⟨_, _, AssemblyOptions.assemble_eq_ok_iff.mpr ⟨hvalid, rfl⟩,
    AssemblyOptions.assemble_eq_ok_iff.mpr ⟨hvalid, rfl⟩,
    AssemblyOptions.repeats_redrawn hvalid segments⟩

/-- A road that is drawn there and back, and before it one that leads nowhere. -/
theorem assemble_toSegments_street :
    ∃ n m, AssemblyOptions.assemble (α := ℝ) .default
        [⟨0, ⟨10, 0⟩, ⟨10, 0⟩, 0, "lane"⟩, ⟨1, ⟨0, 0⟩, ⟨10, 0⟩, 0, "street"⟩,
          ⟨2, ⟨10, 0⟩, ⟨0, 0⟩, 3, "street"⟩] = .ok n ∧
      AssemblyOptions.assemble .default n.toSegments = .ok m ∧ n.Repeats m :=
  assemble_toSegments isValid_default_real _

end Roadworks
