import Roadworks.Proofs.Assembly.Stages
import Roadworks.Proofs.Network.Soundness
/-! # Assembled networks are sound

An assembly does not check its network, but the last pass of the clustering has compared the
positions of all its nodes. -/

namespace Roadworks.AssemblyOptions

variable {α : Type} [Scalar α] {o : AssemblyOptions α} {segments : List (RoadSegment α)}

theorem length_nodes_network (o : AssemblyOptions α) (segments : List (RoadSegment α)) :
    (o.network segments).nodes.length = (o.used segments).length := by
  rw [network, Network.length_nodes_ofParts, List.length_map]

theorem edges_network_eq (o : AssemblyOptions α) (segments : List (RoadSegment α)) :
    (o.network segments).edges = (o.kept segments).map (o.edgeOf segments) := rfl

theorem mem_edges_network_iff {e : Edge α} :
    e ∈ (o.network segments).edges ↔ ∃ p ∈ o.kept segments, o.edgeOf segments p = e :=
  List.mem_map

theorem ends_edgeOf (o : AssemblyOptions α) (segments : List (RoadSegment α)) (p : Placed α) :
    (o.edgeOf segments p).ends = p.ends.map (o.used segments).idxOf := rfl

theorem not_isDiag_of_mem_kept {p : Placed α} (hp : p ∈ o.kept segments) : ¬ p.ends.IsDiag :=
  (Placed.ends_of_mem_keptOf hp).1

theorem ends_edgeOf_inj {p q : Placed α} (hp : p ∈ o.kept segments) :
    (o.edgeOf segments p).ends = (o.edgeOf segments q).ends ↔ p.ends = q.ends := by
  have hinj {c d : Nat} (hc : c ∈ o.used segments) :
      (o.used segments).idxOf c = (o.used segments).idxOf d ↔ c = d := List.idxOf_inj hc
  simp only [ends_edgeOf, Placed.ends, Sym2.map_mk, Sym2.eq_iff, hinj (tail_mem_used hp),
    hinj (head_mem_used hp)]

theorem joinsNodes_network (o : AssemblyOptions α) (segments : List (RoadSegment α)) :
    (o.network segments).JoinsNodes := by
  intro e he
  rcases mem_edges_network_iff.mp he with ⟨p, hp, rfl⟩
  rw [length_nodes_network]
  refine ⟨List.idxOf_lt_length_of_mem (tail_mem_used hp),
    List.idxOf_lt_length_of_mem (head_mem_used hp), fun heq => ?_⟩
  exact not_isDiag_of_mem_kept hp
    (Placed.isDiag_ends_iff.mpr ((List.idxOf_inj (tail_mem_used hp)).mp heq))

theorem map_position_network (o : AssemblyOptions α) (segments : List (RoadSegment α)) :
    (o.network segments).nodes.map (·.position) =
      (o.used segments).map (o.placeOf segments) := by
  rw [network, Network.map_position_nodes_ofParts, List.map_map]
  rfl

/-- The positions of the nodes are among the centroids that the last pass of the clustering found
to be apart. -/
theorem nearPairs_positions_network (o : AssemblyOptions α) (segments : List (RoadSegment α)) :
    nearPairs o.mergeTolerance ((o.network segments).nodes.map (·.position)) = [] := by
  rw [map_position_network]
  exact nearPairs_eq_nil_of_sublist (o.map_placeOf_used_sublist segments)
    (Clustering.nearPairs_centroids_clusterPoints _ _)

theorem isCoherent_network (o : AssemblyOptions α) (segments : List (RoadSegment α)) :
    (o.network segments).IsCoherent where
  joinsNodes := o.joinsNodes_network segments
  listsRoads := Network.listsRoads_ofParts _ _ _ _ _ _
  apart := o.nearPairs_positions_network segments

theorem isSimple_network (o : AssemblyOptions α) (segments : List (RoadSegment α)) :
    (o.network segments).IsSimple := by
  have hlists := (o.isCoherent_network segments).listsRoads
  constructor
  case joinsNodes => exact o.joinsNodes_network segments
  case pairwise_ends =>
    rw [edges_network_eq, List.pairwise_map]
    refine (Placed.pairwise_keptOf [] (o.placed segments)).imp_of_mem ?_
    intro p q hp _ hne
    exact (ends_edgeOf_inj hp).not.mpr hne
  case one_le_degree =>
    intro v hv
    rcases List.mem_iff_getElem?.mp hv with ⟨i, hi⟩
    have hlt : i < (o.used segments).length := by
      rw [← length_nodes_network]
      exact (List.getElem?_eq_some_iff.mp hi).1
    rcases mem_used_iff.mp (List.getElem_mem hlt) with ⟨p, hp, hc⟩
    have hnumber : (o.used segments).idxOf (o.used segments)[i] = i :=
      (o.pairwise_used segments).nodup.idxOf_getElem i hlt
    rcases List.mem_iff_getElem?.mp (mem_edges_network_iff.mpr ⟨p, hp, rfl⟩) with ⟨k, hk⟩
    have htouches : (o.edgeOf segments p).touches i := by
      rw [Edge.touches_iff]
      rcases Sym2.mem_iff.mp hc with h | h
      · exact .inl (by rw [edgeOf, ← h, hnumber])
      · exact .inr (by rw [edgeOf, ← h, hnumber])
    rw [Node.degree, hlists i v hi]
    exact List.length_pos_of_mem (mem_incidentTo_iff.mpr ⟨_, hk, htouches⟩)
  case incident =>
    intro i v hv
    rw [hlists i v hv]
    refine ⟨pairwise_incidentTo _ i, fun k => ?_⟩
    simp only [mem_incidentTo_iff, Edge.touches_iff]

end Roadworks.AssemblyOptions
