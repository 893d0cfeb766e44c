import Mathlib.Logic.Relation
import Roadworks.Proofs.Forest.Parts
import Roadworks.Proofs.Network.Soundness
/-! # Components

The components of a network part its nodes by the paths of roads between them. They are computed
from the list of roads; a search that follows the roads from node to node ends with the same sets. -/

namespace Roadworks

open Relation

variable {α : Type}

namespace Network

/-! ## Paths of roads -/

/-- A road joins the two nodes. -/
def IsAdjacent (n : Network α) (i j : Nat) : Prop :=
  i < n.nodes.length ∧ j < n.nodes.length ∧ ∃ e ∈ n.edges, e.ends = s(i, j)

/-- A path of roads leads from one node to the other. -/
def IsReachable (n : Network α) : Nat → Nat → Prop := ReflTransGen n.IsAdjacent

instance (n : Network α) : Std.Symm n.IsAdjacent where
  symm := by
    intro i j ⟨hi, hj, e, he, hends⟩
    exact ⟨hj, hi, e, he, hends.trans Sym2.eq_swap⟩

theorem isReachable_eq_eqvGen (n : Network α) : n.IsReachable = EqvGen n.IsAdjacent :=
  (EqvGen.eqvGen_eq_reflTransGen _).symm

/-! ## Components by the roads -/

/-- The sets of nodes that roads lead to from each other. -/
def joined (n : Network α) : DisjointSet :=
  ((DisjointSet.new n.nodes.length).joinAll (n.edges.map fun e => (e.tail, e.head))).2

theorem mem_inside_iff {n : Network α} {i j : Nat} :
    (i, j) ∈ (DisjointSet.new n.nodes.length).inside (n.edges.map fun e => (e.tail, e.head)) ↔
      i < n.nodes.length ∧ j < n.nodes.length ∧ ∃ e ∈ n.edges, e.tail = i ∧ e.head = j := by
  rw [DisjointSet.mem_inside_iff, List.mem_map]
  simp only [Prod.mk.injEq, DisjointSet.new, Array.size_range]
  tauto

theorem root_joined_eq_iff {n : Network α} {i j : Nat} :
    n.joined.root i = n.joined.root j ↔ n.IsReachable i j := by
  rw [joined, DisjointSet.root_joinAll_snd_eq_iff_inside, isReachable_eq_eqvGen]
  constructor
  · refine EqvGen.eqvGen_le ?_ i j
    intro x y hxy
    rcases hxy with hroot | hpair
    · rw [DisjointSet.root_new, DisjointSet.root_new] at hroot
      rw [hroot]
      exact .refl y
    · obtain ⟨hx, hy, e, he, rfl, rfl⟩ := mem_inside_iff.mp hpair
      exact .rel _ _ ⟨hx, hy, e, he, rfl⟩
  · refine EqvGen.eqvGen_le ?_ i j
    intro x y ⟨hx, hy, e, he, hends⟩
    rcases Sym2.eq_iff.mp hends with ⟨htail, hhead⟩ | ⟨htail, hhead⟩
    · exact .rel _ _ (.inr (mem_inside_iff.mpr ⟨hx, hy, e, he, htail, hhead⟩))
    · exact .symm _ _ (.rel _ _ (.inr (mem_inside_iff.mpr ⟨hy, hx, e, he, htail, hhead⟩)))

variable {n : Network α}

theorem components_eq_parts (n : Network α) :
    n.components = n.joined.parts n.nodes.length := rfl

theorem length_components (n : Network α) :
    n.components.length = (n.joined.leaders n.nodes.length).length :=
  List.length_map _

theorem JoinsNodes.covers (h : n.JoinsNodes) :
    (DisjointSet.new n.nodes.length).Covers (n.edges.map fun e => (e.tail, e.head)) := by
  intro p hp
  obtain ⟨e, he, rfl⟩ := List.mem_map.mp hp
  obtain ⟨htail, hhead, _⟩ := h e he
  simpa [DisjointSet.new] using And.intro htail hhead

/-- No path leads out of a network. -/
theorem IsReachable.lt_length_iff {i j : Nat} (h : n.IsReachable i j) :
    i < n.nodes.length ↔ j < n.nodes.length := by
  have hsize : n.joined.parents.size = n.nodes.length := by
    simp [joined, DisjointSet.size_joinAll_snd, DisjointSet.new]
  rw [← hsize]
  exact DisjointSet.lt_size_iff_of_root_eq (root_joined_eq_iff.mpr h)

/-- Two nodes share a component when a path of roads leads from one to the other. -/
theorem share_components_iff {i j : Nat} :
    Share n.components i j ↔ i < n.nodes.length ∧ n.IsReachable i j := by
  rw [components_eq_parts, DisjointSet.share_parts_iff, root_joined_eq_iff]
  constructor
  · intro ⟨hi, _, hreach⟩
    exact ⟨hi, hreach⟩
  · intro ⟨hi, hreach⟩
    exact ⟨hi, hreach.lt_length_iff.mp hi, hreach⟩

/-- Nodes that can all be reached from each other lie in one component. -/
theorem length_components_le_one
    (h : ∀ i < n.nodes.length, ∀ j < n.nodes.length, n.IsReachable i j) :
    n.components.length ≤ 1 := by
  rw [length_components]
  have hnodup := n.joined.nodup_leaders n.nodes.length
  have heq : ∀ r ∈ n.joined.leaders n.nodes.length, ∀ s ∈ n.joined.leaders n.nodes.length,
      r = s := by
    intro r hr s hs
    rw [DisjointSet.mem_leaders_iff] at hr hs
    rw [← hr.2, ← hs.2]
    exact root_joined_eq_iff.mpr (h r hr.1 s hs.1)
  generalize n.joined.leaders n.nodes.length = leaders at hnodup heq
  match leaders, hnodup, heq with
  | [], _, _ => simp
  | [_], _, _ => simp
  | r :: s :: _, hnodup, heq =>
      have hne := (List.nodup_cons.mp hnodup).1
      rw [heq r (by simp) s (by simp)] at hne
      exact absurd List.mem_cons_self hne

/-! ## Components by a search -/

theorem otherEnd_eq_some_iff {e : Edge α} {i j : Nat} :
    e.otherEnd i = some j ↔ e.ends = s(i, j) := by
  rw [Edge.otherEnd, Edge.ends, Sym2.eq_iff]
  split
  · simp; omega
  · split
    · simp; omega
    · simp; omega

/-- The nodes that the roads listed at a node lead to. -/
def neighbours (n : Network α) (i : Nat) : List Nat :=
  match n.nodes[i]? with
  | none => []
  | some v => (v.incident.filterMap fun k => n.edges[k]?).filterMap fun e => e.otherEnd i

theorem mem_neighbours_iff (hjoins : n.JoinsNodes) (hlists : n.ListsRoads) {i j : Nat} :
    j ∈ n.neighbours i ↔ n.IsAdjacent i j := by
  rw [neighbours]
  cases hv : n.nodes[i]? with
  | none =>
      have hi := List.getElem?_eq_none_iff.mp hv
      simp only [List.not_mem_nil, IsAdjacent, false_iff]
      omega
  | some v =>
      have hi := (List.getElem?_eq_some_iff.mp hv).1
      simp only [List.mem_filterMap, hlists i v hv, mem_incidentTo_iff, otherEnd_eq_some_iff]
      constructor
      · intro ⟨e, ⟨k, _, hk⟩, hends⟩
        have he := List.mem_of_getElem? hk
        obtain ⟨htail, hhead, _⟩ := hjoins e he
        refine ⟨hi, ?_, e, he, hends⟩
        rcases Sym2.eq_iff.mp hends with ⟨_, rfl⟩ | ⟨rfl, _⟩
        · exact hhead
        · exact htail
      · intro ⟨_, _, e, he, hends⟩
        obtain ⟨k, hk⟩ := List.mem_iff_getElem?.mp he
        refine ⟨e, ⟨k, ⟨e, hk, ?_⟩, hk⟩, hends⟩
        rw [Edge.touches_iff]
        rcases Sym2.eq_iff.mp hends with ⟨htail, _⟩ | ⟨_, hhead⟩
        · exact .inl htail
        · exact .inr hhead

/-- What a search for connected components returns: sets without common numbers, none of them empty,
that merge every start with its neighbours, transitively. -/
structure IsGrouping (starts : List Nat) (neighbours : Nat → List Nat) (sets : List (List Nat)) :
    Prop where
  ne_nil : ∀ c ∈ sets, c ≠ []
  nodup : sets.flatten.Nodup
  share_iff : ∀ i j, Share sets i j ↔ (i ∈ starts ∨ ∃ s ∈ starts, i ∈ neighbours s) ∧
    EqvGen (fun s k => s ∈ starts ∧ k ∈ neighbours s) i j

/-- A search merges the nodes that paths of roads join. -/
theorem merged_iff_isReachable (hjoins : n.JoinsNodes) (hlists : n.ListsRoads) (i j : Nat) :
    ((i ∈ List.range n.nodes.length ∨ ∃ s ∈ List.range n.nodes.length, i ∈ n.neighbours s) ∧
        EqvGen (fun s k => s ∈ List.range n.nodes.length ∧ k ∈ n.neighbours s) i j) ↔
      i < n.nodes.length ∧ n.IsReachable i j := by
  have hstep : (fun s k => s ∈ List.range n.nodes.length ∧ k ∈ n.neighbours s) = n.IsAdjacent := by
    funext s k
    rw [mem_neighbours_iff hjoins hlists, List.mem_range]
    exact propext ⟨fun h => h.2, fun h => ⟨h.1, h⟩⟩
  rw [hstep, ← isReachable_eq_eqvGen]
  simp only [mem_neighbours_iff hjoins hlists, List.mem_range]
  refine and_congr_left fun _ => ⟨?_, .inl⟩
  intro hi
  rcases hi with hi | ⟨s, _, _, hi, _⟩
  · exact hi
  · exact hi

/-- A search that starts at every node and follows the roads listed there finds the components. -/
theorem sortSets_eq_components (hjoins : n.JoinsNodes) (hlists : n.ListsRoads)
    {sets : List (List Nat)} (h : IsGrouping (List.range n.nodes.length) n.neighbours sets) :
    sortSets sets = n.components := by
  refine (isParting_sortSets h.ne_nil h.nodup).eq_of_share (n.joined.isParting_parts _) ?_
  intro i j
  rw [share_sortSets_iff, h.share_iff, merged_iff_isReachable hjoins hlists]
  exact share_components_iff.symm

/-- The components are what a search can return, so the search is not asked for too much. -/
theorem isGrouping_components (hjoins : n.JoinsNodes) (hlists : n.ListsRoads) :
    IsGrouping (List.range n.nodes.length) n.neighbours n.components where
  ne_nil := (n.joined.isParting_parts _).ne_nil
  nodup := (n.joined.isParting_parts _).nodup
  share_iff i j := by rw [share_components_iff, merged_iff_isReachable hjoins hlists]

end Network

end Roadworks
