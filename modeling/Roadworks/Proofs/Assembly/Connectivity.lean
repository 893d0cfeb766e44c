import Roadworks.Proofs.Network.Components
import Roadworks.Proofs.Network.Obtained
/-! # Assembly disconnects nothing

A segment that is dropped lies within one cluster or beside a kept one. So a path over all segments
can be walked on roads as well. -/

namespace Roadworks

open Relation

variable {α : Type}

/-- Both roads lie in one component. -/
def Network.InOneComponent (n : Network α) (e f : Edge α) : Prop :=
  ∃ c ∈ n.components, (e.tail ∈ c ∧ e.head ∈ c) ∧ f.tail ∈ c ∧ f.head ∈ c

instance (n : Network α) (e f : Edge α) : Decidable (n.InOneComponent e f) :=
  inferInstanceAs (Decidable (∃ c ∈ n.components, _))

variable [Scalar α]

namespace AssemblyOptions

variable {o : AssemblyOptions α} {segments : List (RoadSegment α)}

/-! ## Paths over clusters -/

/-- Some segment has its ends in the two clusters, whether it is kept or dropped. -/
def IsDrawn (o : AssemblyOptions α) (segments : List (RoadSegment α)) (c d : Nat) : Prop :=
  ∃ p ∈ o.placed segments, p.ends = s(c, d)

/-- A path of segments leads from one cluster to the other. -/
def IsLinked (o : AssemblyOptions α) (segments : List (RoadSegment α)) : Nat → Nat → Prop :=
  ReflTransGen (o.IsDrawn segments)

instance (o : AssemblyOptions α) (segments : List (RoadSegment α)) :
    Std.Symm (o.IsDrawn segments) where
  symm := by
    intro c d ⟨p, hp, hends⟩
    exact ⟨p, hp, hends.trans Sym2.eq_swap⟩

instance (o : AssemblyOptions α) (segments : List (RoadSegment α)) :
    IsEquiv Nat (o.IsLinked segments) := by
  rw [IsLinked, ← EqvGen.eqvGen_eq_reflTransGen]
  infer_instance

theorem isLinked_of_mem_ends {p : Placed α} (hp : p ∈ o.placed segments) {c d : Nat}
    (hc : c ∈ p.ends) (hd : d ∈ p.ends) : o.IsLinked segments c d := by
  by_cases hcd : c = d
  · rw [hcd]
    exact .refl
  · exact .single ⟨p, hp, ((Sym2.mem_and_mem_iff hcd).mp ⟨hc, hd⟩)⟩

/-- A segment that is not kept takes no further than a kept one: either it stays in its cluster, or
a kept one joins the same clusters. -/
theorem isReachable_of_isDrawn {c d : Nat} (h : o.IsDrawn segments c d) :
    (o.network segments).IsReachable ((o.used segments).idxOf c) ((o.used segments).idxOf d) := by
  obtain ⟨p, hp, hends⟩ := h
  by_cases hdiag : p.ends.IsDiag
  · rw [hends, Sym2.mk_isDiag_iff] at hdiag
    rw [hdiag]
    exact .refl
  · obtain ⟨q, hq, heq⟩ := Placed.exists_mem_keptOf_ends_eq hp hdiag
    have hqends : q.ends = s(c, d) := heq.symm.trans hends
    have hused {k : Nat} (hk : k ∈ q.ends) :
        (o.used segments).idxOf k < (o.network segments).nodes.length := by
      rw [length_nodes_network]
      exact List.idxOf_lt_length_of_mem (mem_used_iff.mpr ⟨q, hq, hk⟩)
    refine .single ⟨hused ?_, hused ?_, o.edgeOf segments q, ?_, ?_⟩
    · rw [hqends]
      exact Sym2.mem_mk_left c d
    · rw [hqends]
      exact Sym2.mem_mk_right c d
    · exact mem_edges_network_iff.mpr ⟨q, hq, rfl⟩
    · rw [ends_edgeOf, hqends, Sym2.map_mk]

theorem isReachable_of_isLinked {c d : Nat} (h : o.IsLinked segments c d) :
    (o.network segments).IsReachable ((o.used segments).idxOf c) ((o.used segments).idxOf d) :=
  ReflTransGen.lift' (o.used segments).idxOf (fun _ _ => isReachable_of_isDrawn) _ _ h

theorem isLinked_of_isAdjacent {i j : Nat} (h : (o.network segments).IsAdjacent i j) :
    o.IsLinked segments ((o.used segments).getD i 0) ((o.used segments).getD j 0) := by
  obtain ⟨_, _, e, he, hends⟩ := h
  obtain ⟨p, hp, rfl⟩ := mem_edges_network_iff.mp he
  have hcluster {c : Nat} (hc : c ∈ p.ends) :
      (o.used segments).getD ((o.used segments).idxOf c) 0 = c := by
    rw [List.getD_eq_getElem?_getD, getElem?_idxOf_used (mem_used_iff.mpr ⟨p, hp, hc⟩),
      Option.getD_some]
  have hmem {k : Nat} (hk : k ∈ (o.edgeOf segments p).ends) :
      (o.used segments).getD k 0 ∈ p.ends := by
    rw [ends_edgeOf, Sym2.mem_map] at hk
    obtain ⟨c, hc, rfl⟩ := hk
    rwa [hcluster hc]
  rw [hends] at hmem
  exact isLinked_of_mem_ends (mem_placed_of_mem_kept hp) (hmem (Sym2.mem_mk_left i j))
    (hmem (Sym2.mem_mk_right i j))

/-- Nodes can be reached from each other when their clusters are linked by segments. -/
theorem isReachable_iff_isLinked {c d : Nat} (hc : c ∈ o.used segments)
    (hd : d ∈ o.used segments) :
    (o.network segments).IsReachable ((o.used segments).idxOf c) ((o.used segments).idxOf d) ↔
      o.IsLinked segments c d := by
  refine ⟨fun h => ?_, isReachable_of_isLinked⟩
  have hlinked : o.IsLinked segments _ _ :=
    ReflTransGen.lift' (fun i => (o.used segments).getD i 0)
      (fun _ _ => isLinked_of_isAdjacent) _ _ h
  simpa only [List.getD_eq_getElem?_getD, getElem?_idxOf_used hc, getElem?_idxOf_used hd,
    Option.getD_some] using hlinked

/-! ## Components of roads -/

theorem share_components_network_iff {c d : Nat} (hc : c ∈ o.used segments)
    (hd : d ∈ o.used segments) :
    Share (o.network segments).components ((o.used segments).idxOf c)
      ((o.used segments).idxOf d) ↔ o.IsLinked segments c d := by
  rw [Network.share_components_iff, isReachable_iff_isLinked hc hd, length_nodes_network]
  exact and_iff_right (List.idxOf_lt_length_of_mem hc)

/-- Two kept segments lie in one component when their clusters are linked by segments. -/
theorem inOneComponent_iff {p q : Placed α} (hp : p ∈ o.kept segments) (hq : q ∈ o.kept segments)
    {c d : Nat} (hc : c ∈ p.ends) (hd : d ∈ q.ends) :
    (o.network segments).InOneComponent (o.edgeOf segments p) (o.edgeOf segments q) ↔
      o.IsLinked segments c d := by
  have linked {r : Placed α} (hr : r ∈ o.kept segments) {a b : Nat} (ha : a ∈ r.ends)
      (hb : b ∈ r.ends) : o.IsLinked segments a b :=
    isLinked_of_mem_ends (mem_placed_of_mem_kept hr) ha hb
  have hptail := Sym2.mem_mk_left p.tail p.head
  have hphead := Sym2.mem_mk_right p.tail p.head
  have hqtail := Sym2.mem_mk_left q.tail q.head
  have hqhead := Sym2.mem_mk_right q.tail q.head
  constructor
  · intro ⟨part, hpart, ⟨hmem, _⟩, hmem', _⟩
    have htails : o.IsLinked segments p.tail q.tail :=
      (share_components_network_iff (tail_mem_used hp) (tail_mem_used hq)).mp
        ⟨part, hpart, hmem, hmem'⟩
    exact (linked hp hc hptail).trans (htails.trans (linked hq hqtail hd))
  · intro h
    have hshare {b : Nat} (hb : b ∈ o.used segments) (hlinked : o.IsLinked segments p.tail b) :=
      (share_components_network_iff (tail_mem_used hp) hb).mpr hlinked
    have hnodup := ((o.network segments).joined.isParting_parts
      (o.network segments).nodes.length).nodup
    have hpq : o.IsLinked segments p.tail d := (linked hp hptail hc).trans h
    obtain ⟨part, hpart, htail, _⟩ := hshare (tail_mem_used hp) .refl
    have hmem := mem_iff_share hnodup hpart htail
    refine ⟨part, hpart, ⟨htail, ?_⟩, ?_, ?_⟩
    · exact (hmem _).mpr (hshare (head_mem_used hp) (linked hp hptail hphead))
    · exact (hmem _).mpr (hshare (tail_mem_used hq) (hpq.trans (linked hq hd hqtail)))
    · exact (hmem _).mpr (hshare (head_mem_used hq) (hpq.trans (linked hq hd hqhead)))

end AssemblyOptions

/-- The components of a network part its nodes by the paths of roads between them, and a search for
connected components finds them. In an assembled network two roads lie in one component exactly when
a path of segments, dropped ones among them, leads from the clusters of one to those of the other. -/
theorem components_connect (n : Network α) :
    IsParting n.components ∧ n.components.flatten.Perm (List.range n.nodes.length) ∧
    (∀ i j, Share n.components i j ↔ i < n.nodes.length ∧ n.IsReachable i j) ∧
    (n.IsObtained → ∀ sets, Network.IsGrouping (List.range n.nodes.length) n.neighbours sets →
      sortSets sets = n.components) ∧
    ∀ (o : AssemblyOptions α) (segments : List (RoadSegment α)), o.assemble segments = .ok n →
      n.edges = (o.kept segments).map (o.edgeOf segments) ∧
      ∀ p ∈ o.kept segments, ∀ q ∈ o.kept segments, ∀ c ∈ p.ends, ∀ d ∈ q.ends,
        (n.InOneComponent (o.edgeOf segments p) (o.edgeOf segments q) ↔ o.IsLinked segments c d) := by
  refine ⟨n.joined.isParting_parts _, n.joined.flatten_parts_perm _,
    fun _ _ => Network.share_components_iff, ?_, ?_⟩
  · intro h sets hsets
    exact Network.sortSets_eq_components h.isSound.joinsNodes h.isSound.listsRoads hsets
  · intro o segments hassemble
    obtain ⟨_, rfl⟩ := AssemblyOptions.assemble_eq_ok_iff.mp hassemble
    exact ⟨rfl, fun p hp q hq c hc d hd => AssemblyOptions.inOneComponent_iff hp hq hc hd⟩

/-- The corner that is drawn once and half again, and a road elsewhere. -/
def detached : List (RoadSegment Float) :=
  retraced ++ [⟨4, ⟨50.0, 0.0⟩, ⟨60.0, 0.0⟩, 0.0, "street"⟩]

theorem assemble_detached : AssemblyOptions.assemble .default detached =
    .ok (AssemblyOptions.network .default detached) :=
  AssemblyOptions.assemble_eq_ok_iff.mpr ⟨AssemblyOptions.isValid_default, rfl⟩

theorem components_detached :
    (AssemblyOptions.network .default detached).components = [[0, 1, 2], [3, 4]] := by
  decide +kernel

/-- A search may list its sets and their nodes in any order. -/
theorem isGrouping_detached :
    Network.IsGrouping (List.range (AssemblyOptions.network .default detached).nodes.length)
      (AssemblyOptions.network .default detached).neighbours [[4, 3], [2, 0, 1]] := by
  have hsound := (Network.IsObtained.assembled assemble_detached).isSound
  have hself := Network.isGrouping_components hsound.joinsNodes hsound.listsRoads
  refine ⟨by decide, by decide, fun i j => ?_⟩
  rw [← hself.share_iff, components_detached]
  simp only [Share, List.mem_cons, List.not_mem_nil, or_false, exists_eq_or_imp, exists_eq_left]
  tauto

theorem components_connect_detached :
    ∃ n, AssemblyOptions.assemble .default detached = .ok n ∧ n.dropped.length = 2 ∧
      sortSets [[4, 3], [2, 0, 1]] = n.components ∧
      ∃ p ∈ AssemblyOptions.kept .default detached, ∃ q ∈ AssemblyOptions.kept .default detached,
        ∃ r ∈ AssemblyOptions.kept .default detached,
          AssemblyOptions.IsLinked .default detached p.tail q.head ∧
          ¬ AssemblyOptions.IsLinked .default detached p.tail r.tail := by
  obtain ⟨_, _, _, hsearch, hroads⟩ :=
    components_connect (AssemblyOptions.network .default detached)
  obtain ⟨_, hlinked⟩ := hroads _ _ assemble_detached
  have hfound : ∃ p ∈ AssemblyOptions.kept .default detached,
      ∃ q ∈ AssemblyOptions.kept .default detached, ∃ r ∈ AssemblyOptions.kept .default detached,
        (AssemblyOptions.network .default detached).InOneComponent
          (AssemblyOptions.edgeOf .default detached p)
          (AssemblyOptions.edgeOf .default detached q) ∧
        ¬ (AssemblyOptions.network .default detached).InOneComponent
          (AssemblyOptions.edgeOf .default detached p)
          (AssemblyOptions.edgeOf .default detached r) := by
    decide +kernel
  obtain ⟨p, hp, q, hq, r, hr, hjoined, hapart⟩ := hfound
  refine ⟨_, assemble_detached, by decide +kernel,
    hsearch (.assembled assemble_detached) _ isGrouping_detached, p, hp, q, hq, r, hr, ?_, ?_⟩
  · exact (hlinked p hp q hq _ (Sym2.mem_mk_left _ _) _ (Sym2.mem_mk_right _ _)).mp hjoined
  · exact (hlinked p hp r hr _ (Sym2.mem_mk_left _ _) _ (Sym2.mem_mk_left _ _)).not.mp hapart

end Roadworks
