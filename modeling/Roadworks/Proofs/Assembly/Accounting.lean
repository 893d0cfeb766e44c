import Roadworks.Proofs.Assembly.Stages
/-! # An assembly accounts for every segment

Every segment becomes one road or is reported once, and there is a node for every cluster that a
road ends at. -/

namespace Roadworks

variable {α : Type} [Scalar α]

open AssemblyOptions

/-- A network accounts for the segments that it was made of. Every segment has one fate, which is to
be kept or to be reported, and every cluster in `used` has one node. -/
structure Accounts (o : AssemblyOptions α) (segments : List (RoadSegment α)) (n : Network α)
    (fates : List (Option DroppedSegment)) (used : List Nat) : Prop where
  settings : n.name = o.name ∧ n.mergeTolerance = o.mergeTolerance ∧ n.rules = o.junctions
  length_fates : fates.length = segments.length
  /-- A segment is kept, or it is reported under its own number. -/
  fate_cases : ∀ (i : Nat) (s : RoadSegment α), segments[i]? = some s →
    fates[i]? = some none ∨ fates[i]? = some (some (.degenerate s.id)) ∨
      ∃ k, fates[i]? = some (some (.duplicate s.id k))
  /-- A segment shrinks when its ends lie in one cluster. -/
  degenerate_iff : ∀ (i : Nat) (s : RoadSegment α), segments[i]? = some s →
    (fates[i]? = some (some (.degenerate s.id)) ↔
      (o.clusters segments).tailOf i = (o.clusters segments).headOf i)
  /-- A segment repeats an earlier kept one that joins the same two clusters. -/
  duplicate_iff : ∀ (i k : Nat) (s : RoadSegment α), segments[i]? = some s →
    (fates[i]? = some (some (.duplicate s.id k)) ↔
      (o.clusters segments).tailOf i ≠ (o.clusters segments).headOf i ∧
      ∃ j < i, ∃ t, segments[j]? = some t ∧ fates[j]? = some none ∧
        s((o.clusters segments).tailOf i, (o.clusters segments).headOf i) =
          s((o.clusters segments).tailOf j, (o.clusters segments).headOf j) ∧ k = t.id)
  /-- The reports stand in the order of the segments. -/
  dropped_eq : n.dropped = fates.filterMap id
  /-- The roads are the kept segments in their order, between the nodes of their clusters. -/
  edges_eq : n.edges.map (fun e =>
      (used[e.tail]?, used[e.head]?, e.heading, e.styleClass, e.source)) =
    ((segments.zipIdx.zip fates).filter fun e => e.2.isNone).map fun ((s, i), _) =>
      (some ((o.clusters segments).tailOf i), some ((o.clusters segments).headOf i), s.heading,
        s.styleClass, s.id)
  length_add_length : n.edges.length + n.dropped.length = segments.length
  /-- There is a node for every cluster that a kept segment ends at. -/
  mem_used_iff : ∀ c, c ∈ used ↔ ∃ i : Nat, fates[i]? = some none ∧
    (c = (o.clusters segments).tailOf i ∨ c = (o.clusters segments).headOf i)
  /-- The nodes stand in the order of the lowest ends in their clusters. -/
  pairwise_used : used.Pairwise fun c d =>
    (o.clusters segments).assignment.idxOf c < (o.clusters segments).assignment.idxOf d
  /-- A node lies at the mean of all ends in its cluster, at the elevation of the options. -/
  nodes_eq : n.nodes.map (fun v => (v.position, v.elevation)) = used.map fun c =>
    (Clustering.centroid
      (Clustering.members (o.clusters segments).assignment (segmentEnds segments) c), o.elevation)

namespace AssemblyOptions

variable {o : AssemblyOptions α} {segments : List (RoadSegment α)}

/-! ## Nodes -/

theorem nodes_network (o : AssemblyOptions α) (segments : List (RoadSegment α)) :
    (o.network segments).nodes.map (fun v => (v.position, v.elevation)) =
      (o.used segments).map fun c => (o.placeOf segments c, o.elevation) :=
  Network.map_place_nodes_ofParts _ _ _ _ _ _

theorem placeOf_eq {c : Nat} (hc : c ∈ o.used segments) :
    o.placeOf segments c = Clustering.centroid
      (Clustering.members (o.clusters segments).assignment (segmentEnds segments) c) := by
  have hcentroid := (Clustering.numbered_clusterPoints o.mergeTolerance
    (segmentEnds segments)).centroid_eq c (lt_length_of_mem_used hc)
  rw [placeOf, List.getD_eq_getElem?_getD, clusters, hcentroid, Option.getD_some]

/-- Clusters that are numbered in order have their lowest ends in that order. -/
theorem pairwise_idxOf_used (o : AssemblyOptions α) (segments : List (RoadSegment α)) :
    (o.used segments).Pairwise fun c d =>
      (o.clusters segments).assignment.idxOf c < (o.clusters segments).assignment.idxOf d := by
  refine (o.pairwise_used segments).imp_of_mem ?_
  intro c d _ hd hlt
  exact (Clustering.numbered_clusterPoints _ _).first_lt_first c d hlt (lt_length_of_mem_used hd)

/-! ## Roads -/

theorem kept_eq (o : AssemblyOptions α) (segments : List (RoadSegment α)) :
    o.kept segments =
      ((segments.zipIdx.zip (o.fates segments)).filter fun e => e.2.isNone).map fun ((s, i), _) =>
        ⟨s, (o.clusters segments).tailOf i, (o.clusters segments).headOf i⟩ := by
  rw [kept, Placed.keptOf, placed_eq, List.zip_map_left, List.filter_map, List.map_map]
  rfl

theorem mem_used_iff_fates {c : Nat} :
    c ∈ o.used segments ↔ ∃ i : Nat, (o.fates segments)[i]? = some none ∧
      (c = (o.clusters segments).tailOf i ∨ c = (o.clusters segments).headOf i) := by
  rw [mem_used_iff]
  constructor
  · rintro ⟨p, hp, hc⟩
    rcases Placed.mem_keptOf_iff.mp hp with ⟨i, hi, hnone⟩
    rw [getElem?_placed, Option.map_eq_some_iff] at hi
    obtain ⟨s, _, rfl⟩ := hi
    exact ⟨i, hnone, Sym2.mem_iff.mp hc⟩
  · rintro ⟨i, hnone, hc⟩
    have hlt : i < segments.length := by
      rw [← o.length_placed, ← Placed.length_fates []]
      exact (List.getElem?_eq_some_iff.mp hnone).1
    have hplaced := o.getElem?_placed segments i
    rw [List.getElem?_eq_getElem hlt, Option.map_some] at hplaced
    exact ⟨_, Placed.mem_keptOf_iff.mpr ⟨i, hplaced, hnone⟩, Sym2.mem_iff.mpr hc⟩

/-- The roads are the kept segments between the nodes of their clusters. -/
theorem edges_network (o : AssemblyOptions α) (segments : List (RoadSegment α)) :
    (o.network segments).edges.map (fun e => ((o.used segments)[e.tail]?,
        (o.used segments)[e.head]?, e.heading, e.styleClass, e.source)) =
      (o.kept segments).map fun p => (some p.tail, some p.head, p.segment.heading,
        p.segment.styleClass, p.segment.id) := by
  rw [network, Network.ofParts]
  dsimp only
  rw [List.map_map]
  apply List.map_congr_left
  intro p hp
  simp only [Function.comp_apply, edgeOf, getElem?_idxOf_used (tail_mem_used hp),
    getElem?_idxOf_used (head_mem_used hp)]

end AssemblyOptions

/-- An assembly loses no segment and makes none up. -/
theorem assemble_accounts {o : AssemblyOptions α} {segments : List (RoadSegment α)} {n : Network α}
    (h : o.assemble segments = .ok n) : ∃ fates used, Accounts o segments n fates used := by
  rcases assemble_eq_ok_iff.mp h with ⟨_, rfl⟩
  have hplaced {i : Nat} {s : RoadSegment α} (hs : segments[i]? = some s) :
      (o.placed segments)[i]? =
        some ⟨s, (o.clusters segments).tailOf i, (o.clusters segments).headOf i⟩ := by
    rw [getElem?_placed, hs, Option.map_some]
  refine ⟨o.fates segments, o.used segments, ?_⟩
  constructor
  case settings => exact ⟨rfl, rfl, rfl⟩
  case length_fates => rw [AssemblyOptions.fates, Placed.length_fates, length_placed]
  case fate_cases => exact fun i s hs => Placed.fates_cases (hplaced hs)
  case degenerate_iff =>
    intro i s hs
    exact (Placed.fates_eq_degenerate_iff (hplaced hs)).trans Placed.isDiag_ends_iff
  case duplicate_iff =>
    intro i k s hs
    refine (Placed.fates_eq_duplicate_iff (hplaced hs)).trans (and_congr ?_ ?_)
    · exact Placed.isDiag_ends_iff.not
    · constructor
      · rintro ⟨j, hj, q, hq, hkept, hends, rfl⟩
        rw [getElem?_placed, Option.map_eq_some_iff] at hq
        obtain ⟨t, ht, rfl⟩ := hq
        exact ⟨j, hj, t, ht, hkept, hends, rfl⟩
      · rintro ⟨j, hj, t, ht, hkept, hends, rfl⟩
        exact ⟨j, hj, _, hplaced ht, hkept, hends, rfl⟩
  case dropped_eq => rfl
  case edges_eq => rw [edges_network, kept_eq, List.map_map]; rfl
  case length_add_length =>
    rw [← o.length_placed segments, ← Placed.length_keptOf_add_length []]
    simp [network, Network.ofParts, kept, AssemblyOptions.fates]
  case mem_used_iff => exact fun c => mem_used_iff_fates
  case pairwise_used => exact o.pairwise_idxOf_used segments
  case nodes_eq =>
    rw [nodes_network]
    exact List.map_congr_left fun c hc => by rw [placeOf_eq hc]

/-- A corner that is drawn once and half again becomes two roads, and two reports. -/
theorem accounts_retraced :
    ∃ n, AssemblyOptions.assemble .default retraced = .ok n ∧
      n.edges.length = 2 ∧ n.dropped.length = 2 ∧
      ∃ fates used, Accounts .default retraced n fates used := by
  exact ⟨_, assemble_retraced, by decide +kernel, by decide +kernel,
    assemble_accounts assemble_retraced⟩

end Roadworks
