import Mathlib.Data.List.Basic
import Roadworks.Network.Basic
/-! # Networks from their parts

A network that is put together from places and roads has one node for each place, in order, and
every node lists its roads. -/

namespace Roadworks.Network

variable {α : Type} (name : String) (mergeTolerance : α) (rules : JunctionRules α)
  (places : List (Vec α × α)) (edges : List (Edge α)) (dropped : List DroppedSegment)

theorem getElem?_nodes_ofParts (i : Nat) :
    (ofParts name mergeTolerance rules places edges dropped).nodes[i]? =
      places[i]?.map fun place => ⟨place.1, place.2, incidentTo edges i⟩ := by
  rw [ofParts, List.getElem?_map, List.getElem?_zipIdx, Option.map_map, Nat.zero_add]
  rfl

theorem length_nodes_ofParts :
    (ofParts name mergeTolerance rules places edges dropped).nodes.length = places.length := by
  simp [ofParts]

theorem map_place_nodes_ofParts :
    (ofParts name mergeTolerance rules places edges dropped).nodes.map
      (fun v => (v.position, v.elevation)) = places := by
  apply List.ext_getElem?
  intro i
  rw [List.getElem?_map, getElem?_nodes_ofParts, Option.map_map]
  exact Option.map_id'

theorem map_position_nodes_ofParts :
    (ofParts name mergeTolerance rules places edges dropped).nodes.map (·.position) =
      places.map (·.1) := by
  rw [← map_place_nodes_ofParts name mergeTolerance rules places edges dropped, List.map_map,
    map_place_nodes_ofParts]
  rfl

end Roadworks.Network
