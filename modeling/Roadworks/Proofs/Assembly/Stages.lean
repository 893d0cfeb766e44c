import Roadworks.Proofs.Assembly.Sifting
import Roadworks.Proofs.Cluster.Numbering
import Roadworks.Proofs.Network.Parts
import Roadworks.Scalar.Binary64
/-! # The stages of an assembly

The ends of the segments are clustered, the segments are sifted, and the clusters that kept
segments touch become the nodes. -/

namespace Roadworks

variable {α : Type}

/-! ## Ends of segments -/

theorem length_segmentEnds (segments : List (RoadSegment α)) :
    (segmentEnds segments).length = 2 * segments.length := by
  rw [segmentEnds, List.length_flatMap]
  simp [Nat.mul_comm]

/-- The ends of segment number `i` stand at the places `2i` and `2i + 1`. -/
theorem getElem?_segmentEnds {segments : List (RoadSegment α)} {i : Nat} {s : RoadSegment α}
    (h : segments[i]? = some s) :
    (segmentEnds segments)[2 * i]? = some s.start ∧
      (segmentEnds segments)[2 * i + 1]? = some s.stop := by
  induction segments generalizing i with
  | nil => simp at h
  | cons t segments ih =>
      cases i with
      | zero =>
          obtain rfl : t = s := by simpa using h
          exact ⟨rfl, rfl⟩
      | succ i =>
          have hrest := ih (i := i) (by simpa using h)
          rwa [Nat.mul_succ]

theorem mem_segmentEnds_iff {segments : List (RoadSegment α)} {p : Vec α} :
    p ∈ segmentEnds segments ↔ ∃ s ∈ segments, p = s.start ∨ p = s.stop := by
  simp [segmentEnds]

/-- The cluster of the start of segment number `i`, where the ends of segments are clustered. -/
def Clustering.tailOf (c : Clustering α) (i : Nat) : Nat := c.assignment.getD (2 * i) 0

/-- The cluster of the end of segment number `i`, where the ends of segments are clustered. -/
def Clustering.headOf (c : Clustering α) (i : Nat) : Nat := c.assignment.getD (2 * i + 1) 0

theorem getElem?_placeSegments {segments : List (RoadSegment α)} {ends : List Nat}
    (h : ends.length = 2 * segments.length) (i : Nat) :
    (placeSegments segments ends)[i]? =
      segments[i]?.map fun s => ⟨s, ends.getD (2 * i) 0, ends.getD (2 * i + 1) 0⟩ := by
  fun_induction placeSegments segments ends generalizing i with
  | case1 s rest a b ends ih =>
      cases i with
      | zero => rfl
      | succ i =>
          have hrest := ih (by simp only [List.length_cons] at h; omega) i
          rw [List.getElem?_cons_succ, List.getElem?_cons_succ, hrest, Nat.mul_succ]
          rfl
  | case2 segments ends hshort =>
      cases segments with
      | nil => rfl
      | cons s rest =>
          match ends, h with
          | a :: b :: ends, _ => exact absurd rfl (hshort s rest a b ends rfl)
          | [_], h => simp only [List.length_cons, List.length_nil] at h; omega
          | [], h => simp only [List.length_cons, List.length_nil] at h; omega

namespace AssemblyOptions

variable [Scalar α]

/-! ## What is made of the segments -/

/-- The options pass the checks of an assembly. -/
def IsValid (o : AssemblyOptions α) : Prop :=
  Network.isTolerance o.mergeTolerance = true ∧ o.junctions.badRadius? = none

/-- The clusters of the ends of the segments. -/
def clusters (o : AssemblyOptions α) (segments : List (RoadSegment α)) : Clustering α :=
  clusterPoints o.mergeTolerance (segmentEnds segments)

/-- The segments between the clusters of their ends. -/
def placed (o : AssemblyOptions α) (segments : List (RoadSegment α)) : List (Placed α) :=
  placeSegments segments (o.clusters segments).assignment

/-- What becomes of the segments. -/
def fates (o : AssemblyOptions α) (segments : List (RoadSegment α)) :
    List (Option DroppedSegment) :=
  Placed.fates [] (o.placed segments)

/-- The segments that become roads. -/
def kept (o : AssemblyOptions α) (segments : List (RoadSegment α)) : List (Placed α) :=
  Placed.keptOf (o.placed segments) (o.fates segments)

/-- The clusters that become nodes. -/
def used (o : AssemblyOptions α) (segments : List (RoadSegment α)) : List Nat :=
  touched (o.clusters segments).centroids.length (o.kept segments)

/-- The road that is made of a kept segment. -/
def edgeOf (o : AssemblyOptions α) (segments : List (RoadSegment α)) (p : Placed α) : Edge α :=
  ⟨(o.used segments).idxOf p.tail, (o.used segments).idxOf p.head, p.segment.heading,
    p.segment.styleClass, p.segment.id⟩

/-- The position of the node that is made of a cluster. -/
def placeOf (o : AssemblyOptions α) (segments : List (RoadSegment α)) (c : Nat) : Vec α :=
  (o.clusters segments).centroids.getD c .zero

/-- The network that is made of the segments where the options are valid. -/
def network (o : AssemblyOptions α) (segments : List (RoadSegment α)) : Network α :=
  .ofParts o.name o.mergeTolerance o.junctions
    ((o.used segments).map fun c => (o.placeOf segments c, o.elevation))
    ((o.kept segments).map (o.edgeOf segments)) ((o.fates segments).filterMap id)

/-- An assembly succeeds exactly under valid options. -/
theorem assemble_eq_ok_iff {o : AssemblyOptions α} {segments : List (RoadSegment α)}
    {n : Network α} :
    o.assemble segments = .ok n ↔ o.IsValid ∧ n = o.network segments := by
  rw [assemble, IsValid]
  cases htolerance : Network.isTolerance o.mergeTolerance with
  | false => simp
  | true =>
      cases hradius : o.junctions.badRadius? with
      | some r => simp
      | none =>
          simp only [Bool.not_true, Bool.false_eq_true, if_false, Placed.sift_nil, Except.ok.injEq]
          simp only [true_and]
          exact eq_comm

theorem isValid_default : (AssemblyOptions.default : AssemblyOptions Float).IsValid :=
  ⟨by decide +kernel, by rfl⟩

/-! ## Places of segments -/

theorem length_assignment_clusters (o : AssemblyOptions α) (segments : List (RoadSegment α)) :
    (o.clusters segments).assignment.length = 2 * segments.length := by
  rw [clusters, (Clustering.numbered_clusterPoints _ _).length_assignment, length_segmentEnds]

theorem getElem?_placed (o : AssemblyOptions α) (segments : List (RoadSegment α)) (i : Nat) :
    (o.placed segments)[i]? = segments[i]?.map fun s =>
      ⟨s, (o.clusters segments).tailOf i, (o.clusters segments).headOf i⟩ :=
  getElem?_placeSegments (o.length_assignment_clusters segments) i

theorem length_placed (o : AssemblyOptions α) (segments : List (RoadSegment α)) :
    (o.placed segments).length = segments.length := by
  refine Nat.le_antisymm ?_ ?_
  · rw [← List.getElem?_eq_none_iff, getElem?_placed, List.getElem?_eq_none le_rfl]
    rfl
  · rw [← List.getElem?_eq_none_iff]
    have hnone := o.getElem?_placed segments (o.placed segments).length
    rw [List.getElem?_eq_none le_rfl, eq_comm, Option.map_eq_none_iff] at hnone
    exact hnone

theorem placed_eq (o : AssemblyOptions α) (segments : List (RoadSegment α)) :
    o.placed segments = segments.zipIdx.map fun (s, i) =>
      ⟨s, (o.clusters segments).tailOf i, (o.clusters segments).headOf i⟩ := by
  apply List.ext_getElem?
  intro i
  rw [getElem?_placed, List.getElem?_map, List.getElem?_zipIdx, Option.map_map]
  simp [Function.comp_def]

theorem lt_length_of_mem_ends {o : AssemblyOptions α} {segments : List (RoadSegment α)}
    {p : Placed α} (hp : p ∈ o.placed segments) {c : Nat} (hc : c ∈ p.ends) :
    c < (o.clusters segments).centroids.length := by
  rcases List.mem_iff_getElem?.mp hp with ⟨i, hi⟩
  rw [getElem?_placed, Option.map_eq_some_iff] at hi
  obtain ⟨s, hs, rfl⟩ := hi
  have hlength := o.length_assignment_clusters segments
  have hbound : i < segments.length := (List.getElem?_eq_some_iff.mp hs).1
  have hassigned {k : Nat} (hk : k < 2 * segments.length) :
      (o.clusters segments).assignment.getD k 0 < (o.clusters segments).centroids.length := by
    have hk' : k < (o.clusters segments).assignment.length := by omega
    rw [List.getD_eq_getElem?_getD, List.getElem?_eq_getElem hk', Option.getD_some]
    exact (Clustering.numbered_clusterPoints _ _).lt_length _ (List.getElem_mem hk')
  rcases Sym2.mem_iff.mp hc with rfl | rfl
  · exact hassigned (by omega)
  · exact hassigned (by omega)

/-! ## Nodes and roads -/

theorem mem_placed_of_mem_kept {o : AssemblyOptions α} {segments : List (RoadSegment α)}
    {p : Placed α} (hp : p ∈ o.kept segments) : p ∈ o.placed segments := by
  rcases Placed.mem_keptOf_iff.mp hp with ⟨i, hi, _⟩
  exact List.mem_of_getElem? hi

theorem mem_used_iff {o : AssemblyOptions α} {segments : List (RoadSegment α)} {c : Nat} :
    c ∈ o.used segments ↔ ∃ p ∈ o.kept segments, c ∈ p.ends := by
  simp only [used, touched, List.mem_filter, List.mem_range, List.any_eq_true, Placed.touches_iff]
  refine ⟨fun h => h.2, ?_⟩
  rintro ⟨p, hp, hc⟩
  exact ⟨lt_length_of_mem_ends (mem_placed_of_mem_kept hp) hc, p, hp, hc⟩

theorem lt_length_of_mem_used {o : AssemblyOptions α} {segments : List (RoadSegment α)} {c : Nat}
    (hc : c ∈ o.used segments) : c < (o.clusters segments).centroids.length :=
  List.mem_range.mp (List.mem_filter.mp hc).1

theorem pairwise_used (o : AssemblyOptions α) (segments : List (RoadSegment α)) :
    (o.used segments).Pairwise (· < ·) :=
  List.pairwise_lt_range.filter _

theorem getElem?_idxOf_used {o : AssemblyOptions α} {segments : List (RoadSegment α)} {c : Nat}
    (hc : c ∈ o.used segments) : (o.used segments)[(o.used segments).idxOf c]? = some c := by
  have hlt := List.idxOf_lt_length_of_mem hc
  rw [List.getElem?_eq_getElem hlt, List.getElem_idxOf]

theorem tail_mem_used {o : AssemblyOptions α} {segments : List (RoadSegment α)} {p : Placed α}
    (hp : p ∈ o.kept segments) : p.tail ∈ o.used segments :=
  mem_used_iff.mpr ⟨p, hp, Sym2.mem_mk_left _ _⟩

theorem head_mem_used {o : AssemblyOptions α} {segments : List (RoadSegment α)} {p : Placed α}
    (hp : p ∈ o.kept segments) : p.head ∈ o.used segments :=
  mem_used_iff.mpr ⟨p, hp, Sym2.mem_mk_right _ _⟩

theorem map_placeOf_used_sublist (o : AssemblyOptions α) (segments : List (RoadSegment α)) :
    ((o.used segments).map (o.placeOf segments)).Sublist (o.clusters segments).centroids := by
  have hall : (List.range (o.clusters segments).centroids.length).map (o.placeOf segments) =
      (o.clusters segments).centroids := by
    apply List.ext_getElem (by simp)
    intro i hi hi'
    simp [placeOf, List.getD_eq_getElem?_getD, hi']
  conv => rhs; rw [← hall]
  exact List.Sublist.map _ List.filter_sublist

end AssemblyOptions

/-- A road around a corner whose second half is drawn again on the way back, and a road that is too
short to lead anywhere. -/
def retraced : List (RoadSegment Float) := [
  ⟨0, ⟨0.0, 0.0⟩, ⟨10.0, 0.0⟩, 0.0, "street"⟩,
  ⟨1, ⟨10.0, 0.0⟩, ⟨10.0, 10.0⟩, 1.5, "street"⟩,
  ⟨2, ⟨10.0, 10.0⟩, ⟨10.0, 0.0⟩, 4.5, "lane"⟩,
  ⟨3, ⟨10.0, 0.0⟩, ⟨10.001, 0.0⟩, 0.0, "lane"⟩]

theorem assemble_retraced : AssemblyOptions.assemble .default retraced =
    .ok (AssemblyOptions.network .default retraced) :=
  AssemblyOptions.assemble_eq_ok_iff.mpr ⟨AssemblyOptions.isValid_default, rfl⟩

end Roadworks
