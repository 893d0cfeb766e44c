import Mathlib.Data.List.Sort
import Std.Data.String.ToNat
import Roadworks.Network.Message
import Roadworks.Proofs.Network.Obtained
/-! # Networks and documents

A network that is written and read again differs from the first one in the headings and sources of
its roads only, so it is written as the same document. -/

namespace Roadworks

/-! ## Labels -/

theorem nodeLabel_inj {i j : Nat} : nodeLabel i = nodeLabel j ↔ i = j := by
  rw [nodeLabel, nodeLabel, String.append_right_inj]
  exact Nat.repr_inj

theorem segmentLabel_inj {i j : Nat} : segmentLabel i = segmentLabel j ↔ i = j := by
  rw [segmentLabel, segmentLabel, String.append_right_inj]
  exact Nat.repr_inj

theorem nodup_map_zipIdx {β : Type} {label : Nat → String}
    (hlabel : ∀ i j, label i = label j ↔ i = j) (l : List β) :
    (l.zipIdx.map fun e => label e.2).Nodup := by
  have hmap : (l.zipIdx.map fun e => label e.2) = (List.range' 0 l.length).map label := by
    rw [← List.zipIdx_map_snd, List.map_map]
    rfl
  rw [hmap]
  exact List.Nodup.map (fun i j => (hlabel i j).mp) List.nodup_range'

variable {α : Type} [Scalar α]

/-! ## The network that comes back -/

namespace Network

/-- The network with its roads drawn anew from node to node. -/
def redrawn (n : Network α) : Network α :=
  { n with
    edges := n.edges.zipIdx.map fun (e, i) =>
      ⟨e.tail, e.head, n.toDocument.headingBetween e.tail e.head, e.styleClass, i⟩
    dropped := [] }

theorem getElem?_edges_redrawn (n : Network α) (i : Nat) :
    n.redrawn.edges[i]? = n.edges[i]?.map fun e =>
      ⟨e.tail, e.head, n.toDocument.headingBetween e.tail e.head, e.styleClass, i⟩ := by
  rw [redrawn, List.getElem?_map, List.getElem?_zipIdx, Option.map_map, Nat.zero_add]
  rfl

theorem length_edges_redrawn (n : Network α) : n.redrawn.edges.length = n.edges.length := by
  simp [redrawn]

theorem incidentTo_redrawn (n : Network α) (node : Nat) :
    incidentTo n.redrawn.edges node = incidentTo n.edges node := by
  apply (pairwise_incidentTo _ node).eq_of_mem_iff (pairwise_incidentTo _ node)
  intro i
  rw [mem_incidentTo_iff, mem_incidentTo_iff, getElem?_edges_redrawn]
  simp [Edge.touches]

theorem approach_redrawn (n : Network α) (node edge : Nat) :
    n.redrawn.approach node edge = n.approach node edge := by
  rw [approach, approach, getElem?_edges_redrawn]
  cases n.edges[edge]? with
  | none => rfl
  | some e => rfl

theorem intersectionType_redrawn (n : Network α) (node : Nat) :
    n.redrawn.intersectionType node = n.intersectionType node := by
  have happroach : n.redrawn.approach node = n.approach node := funext (n.approach_redrawn node)
  rw [intersectionType, intersectionType, happroach]
  rfl

theorem toDocument_redrawn (n : Network α) : n.redrawn.toDocument = n.toDocument := by
  have hkinds : n.redrawn.intersections = n.intersections := by
    rw [intersections, intersections]
    simp only [intersectionType_redrawn]
    rfl
  have hedges : n.redrawn.toDocument.segments = n.toDocument.segments := by
    apply List.ext_getElem?
    intro i
    simp only [toDocument, List.getElem?_map, List.getElem?_zipIdx, getElem?_edges_redrawn,
      Option.map_map, Nat.zero_add]
    rfl
  have hnotes : n.redrawn.toDocument.intersections = n.toDocument.intersections := by
    rw [toDocument, toDocument, hkinds]
    rfl
  exact NetworkDocument.mk.injEq .. ▸ ⟨rfl, rfl, rfl, rfl, hedges, hnotes⟩

/-! ## Reading what was written -/

theorem getElem?_nodes_toDocument (n : Network α) (i : Nat) :
    n.toDocument.nodes[i]? =
      n.nodes[i]?.map fun v => ⟨nodeLabel i, v.position, v.elevation⟩ := by
  rw [toDocument, List.getElem?_map, List.getElem?_zipIdx, Option.map_map, Nat.zero_add]
  rfl

theorem getElem?_segments_toDocument (n : Network α) (i : Nat) :
    n.toDocument.segments[i]? = n.edges[i]?.map fun e =>
      ⟨segmentLabel i, nodeLabel e.tail, nodeLabel e.head, e.styleClass⟩ := by
  rw [toDocument, List.getElem?_map, List.getElem?_zipIdx, Option.map_map, Nat.zero_add]
  rfl

theorem nodup_nodes_toDocument (n : Network α) : (n.toDocument.nodes.map (·.id)).Nodup := by
  rw [toDocument, List.map_map]
  exact nodup_map_zipIdx (fun _ _ => nodeLabel_inj) n.nodes

theorem nodup_segments_toDocument (n : Network α) :
    (n.toDocument.segments.map (·.id)).Nodup := by
  rw [toDocument, List.map_map]
  exact nodup_map_zipIdx (fun _ _ => segmentLabel_inj) n.edges

theorem nodeIndex?_toDocument {n : Network α} {i : Nat} (hi : i < n.nodes.length) :
    n.toDocument.nodeIndex? (nodeLabel i) = some i := by
  have hnode := n.getElem?_nodes_toDocument i
  rw [List.getElem?_eq_getElem hi, Option.map_some] at hnode
  exact NetworkDocument.nodeIndex?_of_nodup n.nodup_nodes_toDocument hnode

theorem edgesFrom_toDocument {n : Network α} (hjoins : n.JoinsNodes) :
    n.toDocument.edgesFrom [] 0 n.toDocument.segments = .ok n.redrawn.edges := by
  rw [NetworkDocument.edgesFrom_eq_ok_iff]
  constructor
  · rw [NetworkDocument.firstRepeated_eq_none_iff]
    exact ⟨n.nodup_segments_toDocument, by simp⟩
  · rw [List.forall₂_iff_get]
    constructor
    · rw [List.length_zipIdx, length_edges_redrawn, toDocument, List.length_map,
        List.length_zipIdx]
    · intro i hi hi'
      have hlt : i < n.edges.length := by rwa [length_edges_redrawn] at hi'
      have hrecord := n.getElem?_segments_toDocument i
      have hroad := n.getElem?_edges_redrawn i
      rw [List.getElem?_eq_getElem hlt, Option.map_some] at hrecord hroad
      rcases List.getElem?_eq_some_iff.mp hrecord with ⟨_, hrecord⟩
      rcases List.getElem?_eq_some_iff.mp hroad with ⟨_, hroad⟩
      rcases hjoins _ (List.getElem_mem hlt) with ⟨htail, hhead, hne⟩
      rw [List.get_eq_getElem, List.get_eq_getElem, List.getElem_zipIdx, hrecord, hroad,
        Nat.zero_add, NetworkDocument.edgeOf_eq_ok_iff]
      exact ⟨_, _, nodeIndex?_toDocument htail, nodeIndex?_toDocument hhead, hne, rfl⟩

theorem map_place_nodes_toDocument (n : Network α) :
    n.toDocument.nodes.map (fun r => (r.position, r.elevation)) =
      n.nodes.map fun v => (v.position, v.elevation) := by
  apply List.ext_getElem?
  intro i
  rw [List.getElem?_map, List.getElem?_map, getElem?_nodes_toDocument, Option.map_map]
  rfl

theorem networkOf_redrawn {n : Network α} (hlists : n.ListsRoads) :
    n.toDocument.networkOf n.redrawn.edges = n.redrawn := by
  have hnodes : (n.toDocument.networkOf n.redrawn.edges).nodes = n.nodes := by
    apply List.ext_getElem?
    intro i
    rw [NetworkDocument.networkOf, getElem?_nodes_ofParts, map_place_nodes_toDocument,
      List.getElem?_map, Option.map_map, incidentTo_redrawn]
    cases hv : n.nodes[i]? with
    | none => rfl
    | some v =>
        rw [Option.map_some, Function.comp_apply, ← hlists i v hv]
  exact Network.mk.injEq .. ▸ ⟨rfl, rfl, rfl, hnodes, rfl, rfl⟩

theorem IsCoherent.redrawn {n : Network α} (h : n.IsCoherent) : n.redrawn.IsCoherent where
  joinsNodes := by
    intro e he
    rcases List.mem_iff_getElem?.mp he with ⟨i, hi⟩
    rw [getElem?_edges_redrawn, Option.map_eq_some_iff] at hi
    obtain ⟨f, hf, rfl⟩ := hi
    exact h.joinsNodes f (List.mem_of_getElem? hf)
  listsRoads := by
    intro i v hv
    rw [incidentTo_redrawn]
    exact h.listsRoads i v hv
  apart := h.apart

/-- A sound network is read again as itself, with its roads drawn anew. -/
theorem IsSound.toNetwork_toDocument {n : Network α} (h : n.IsSound) :
    n.toDocument.toNetwork = .ok n.redrawn :=
  NetworkDocument.toNetwork_eq_ok_iff.mpr ⟨h.isTolerance, n.nodup_nodes_toDocument,
    h.badRadius, n.redrawn.edges, edgesFrom_toDocument h.joinsNodes,
    (networkOf_redrawn h.listsRoads).symm, h.toIsCoherent.redrawn⟩

theorem mem_intersections_iff {n : Network α} {i : Nat} {kind : IntersectionType} :
    (i, kind) ∈ n.intersections ↔ i < n.nodes.length ∧ n.intersectionType i = some kind := by
  simp only [intersections, List.mem_filterMap, List.mem_range, Option.map_eq_some_iff,
    Prod.mk.injEq]
  constructor
  · rintro ⟨j, hj, k, hk, rfl, rfl⟩
    exact ⟨hj, hk⟩
  · rintro ⟨hi, hkind⟩
    exact ⟨i, hi, kind, hkind, rfl, rfl⟩

theorem mem_intersections_toDocument_iff {n : Network α} {r : IntersectionRecord α} :
    r ∈ n.toDocument.intersections ↔ ∃ i kind, (i < n.nodes.length ∧
      n.intersectionType i = some kind) ∧ ⟨nodeLabel i, kind, n.rules.radiusFor kind⟩ = r := by
  simp only [toDocument, List.mem_map, Prod.exists, mem_intersections_iff]

/-- A document with the intersections of a network agrees with every network that has them too. -/
theorem ofImport_eq_nil {d : NetworkDocument α} {n m : Network α}
    (hnodes : d.nodes = n.toDocument.nodes) (hrecords : d.intersections = n.toDocument.intersections)
    (hkinds : ∀ i, m.intersectionType i = n.intersectionType i) : Notice.ofImport d m = [] := by
  rw [Notice.ofImport, List.filterMap_eq_nil_iff]
  intro r hr
  rw [hrecords, mem_intersections_toDocument_iff] at hr
  obtain ⟨i, kind, ⟨hi, hkind⟩, rfl⟩ := hr
  have hname : d.nodeIndex? (nodeLabel i) = some i := by
    rw [NetworkDocument.nodeIndex?, hnodes]
    exact nodeIndex?_toDocument hi
  rw [Notice.ofRecord?]
  dsimp only
  rw [hname]
  dsimp only
  rw [hkinds, if_pos hkind]

theorem ofImport_redrawn (n : Network α) : Notice.ofImport n.toDocument n.redrawn = [] :=
  ofImport_eq_nil rfl rfl n.intersectionType_redrawn

/-- Two networks have the same settings, the same nodes, and the same roads as far as a document
tells them. -/
structure Resembles (n m : Network α) : Prop where
  settings : m.name = n.name ∧ m.mergeTolerance = n.mergeTolerance ∧ m.rules = n.rules
  nodes : m.nodes.map (fun v => (v.position, v.elevation)) =
    n.nodes.map fun v => (v.position, v.elevation)
  edges : m.edges.map (fun e => (e.tail, e.head, e.styleClass)) =
    n.edges.map fun e => (e.tail, e.head, e.styleClass)

theorem resembles_redrawn (n : Network α) : n.Resembles n.redrawn where
  settings := ⟨rfl, rfl, rfl⟩
  nodes := rfl
  edges := by
    apply List.ext_getElem?
    intro i
    rw [List.getElem?_map, List.getElem?_map, getElem?_edges_redrawn, Option.map_map]
    rfl

end Network

/-! ## Writing what was read -/

/-- A document has been brought into the form that networks are written in: its nodes and roads are
numbered, and what it left out is filled in. -/
structure NetworkDocument.Relabels (d d' : NetworkDocument α) : Prop where
  name : d'.name = d.name
  mergeTolerance : d'.mergeTolerance = some d.tolerance
  junctions : d'.junctions = some d.rules
  nodes : d'.nodes = d.nodes.zipIdx.map fun (r, i) => ⟨nodeLabel i, r.position, r.elevation⟩
  length_segments : d'.segments.length = d.segments.length
  /-- A road joins the nodes that have the numbers of its former ends. -/
  segments : ∀ (k : Nat) (r : SegmentRecord), d.segments[k]? = some r →
    ∃ i j, d'.segments[k]? = some ⟨segmentLabel k, nodeLabel i, nodeLabel j, r.styleClass⟩ ∧
      d.nodes[i]?.map (·.id) = some r.tail ∧ d.nodes[j]?.map (·.id) = some r.head

theorem NetworkDocument.relabels_toDocument {d : NetworkDocument α} {n : Network α}
    (h : d.toNetwork = .ok n) : d.Relabels n.toDocument := by
  rcases toNetwork_eq_ok_iff.mp h with ⟨_, _, _, edges, hedges, rfl, _⟩
  have hrecords := (edgesFrom_eq_ok_iff.mp hedges).2
  have hnamed {name : String} {i : Nat} (hi : d.nodeIndex? name = some i) :
      d.nodes[i]?.map (·.id) = some name := by
    rcases nodeIndex?_eq_some_iff.mp hi with ⟨⟨r, hr, hname⟩, _⟩
    rw [hr, Option.map_some, hname]
  constructor
  case name => rfl
  case mergeTolerance => rfl
  case junctions => rfl
  case nodes =>
    apply List.ext_getElem?
    intro i
    rw [Network.getElem?_nodes_toDocument, networkOf, Network.getElem?_nodes_ofParts,
      List.getElem?_map, List.getElem?_map, List.getElem?_zipIdx, Option.map_map, Option.map_map,
      Option.map_map, Nat.zero_add]
    rfl
  case length_segments =>
    have hlength := hrecords.length_eq
    rw [List.length_zipIdx] at hlength
    rw [hlength, Network.toDocument, List.length_map, List.length_zipIdx]
    rfl
  case segments =>
    intro k r hr
    rcases List.getElem?_eq_some_iff.mp hr with ⟨hk, rfl⟩
    have hlength := hrecords.length_eq
    rw [List.length_zipIdx] at hlength
    have hedge := (List.forall₂_iff_get.mp hrecords).2 k (by simpa using hk) (by omega)
    rw [List.get_eq_getElem, List.get_eq_getElem, List.getElem_zipIdx, Nat.zero_add,
      edgeOf_eq_ok_iff] at hedge
    obtain ⟨i, j, hi, hj, _, he⟩ := hedge
    refine ⟨i, j, ?_, hnamed hi, hnamed hj⟩
    have hget : (d.networkOf edges).edges[k]? = some edges[k] := List.getElem?_eq_getElem _
    rw [Network.getElem?_segments_toDocument, hget, he]
    rfl

/-- Every network that is obtained is read again from its document, without a warning, as a network
with the same document. A document that is read is written in normal form, in which it stays. -/
theorem document_round_trip :
    (∀ n : Network α, n.IsObtained → ∃ m, n.toDocument.toNetwork = .ok m ∧ n.Resembles m ∧
      m.toDocument = n.toDocument ∧ m.dropped = [] ∧ Notice.ofImport n.toDocument m = []) ∧
    ∀ (d : NetworkDocument α) (n : Network α), d.toNetwork = .ok n → d.Relabels n.toDocument ∧
      ∃ m, n.toDocument.toNetwork = .ok m ∧ m.toDocument = n.toDocument := by
  constructor
  · intro n hn
    exact ⟨n.redrawn, hn.isSound.toNetwork_toDocument, n.resembles_redrawn, n.toDocument_redrawn,
      rfl, n.ofImport_redrawn⟩
  · intro d n h
    exact ⟨NetworkDocument.relabels_toDocument h, n.redrawn,
      (isSound_of_toNetwork h).toNetwork_toDocument, n.toDocument_redrawn⟩

/-- A document without settings whose nodes are named out of order. -/
def crossing : NetworkDocument Float where
  name := "crossing"
  mergeTolerance := none
  junctions := none
  nodes := [⟨"b", ⟨0.0, 0.0⟩, 1.0⟩, ⟨"n0", ⟨5.0, 0.0⟩, 1.0⟩, ⟨"a", ⟨0.0, 5.0⟩, 2.0⟩]
  segments := [⟨"second", "n0", "b", "street"⟩, ⟨"first", "b", "a", "lane"⟩]
  intersections := []

theorem exists_toNetwork_crossing : ∃ n, crossing.toNetwork = .ok n := by
  refine ⟨crossing.networkOf [⟨1, 0, crossing.headingBetween 1 0, "street", 0⟩,
    ⟨0, 2, crossing.headingBetween 0 2, "lane", 1⟩], NetworkDocument.toNetwork_eq_ok_iff.mpr
      ⟨by decide +kernel, by decide +kernel, by rfl, _, by rfl, rfl, ?_,
        Network.listsRoads_ofParts _ _ _ _ _ _, by decide +kernel⟩⟩
  simp [Network.JoinsNodes, NetworkDocument.networkOf, Network.ofParts, crossing]

theorem crossing_round_trip :
    ∃ n m : Network Float, crossing.toNetwork = .ok n ∧ crossing.Relabels n.toDocument ∧
      n.toDocument.toNetwork = .ok m ∧ m.toDocument = n.toDocument ∧
      Notice.ofImport n.toDocument m = [] := by
  obtain ⟨n, hn⟩ := exists_toNetwork_crossing
  rcases document_round_trip.1 n (.imported hn) with ⟨m, hm, _, hsame, _, hsilent⟩
  exact ⟨n, m, hn, (document_round_trip.2 crossing n hn).1, hm, hsame, hsilent⟩

end Roadworks
