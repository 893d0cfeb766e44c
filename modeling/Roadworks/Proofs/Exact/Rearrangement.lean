import Roadworks.Proofs.Assembly.Soundness
import Roadworks.Proofs.Exact.Comparison
/-! # Assembly does not depend on how segments are drawn

Over the reals, the lines of an assembled network are the lines of the segments between the homes of
their ends, so neither the order nor the direction nor the origin of the drawing matters. -/

namespace Roadworks

open Linkage

variable {o : AssemblyOptions ℝ} {segments segments' : List (RoadSegment ℝ)} {v : Vec ℝ}

/-! ## Drawings -/

/-- The line that a segment is drawn along. -/
noncomputable def RoadSegment.line (s : RoadSegment ℝ) : Sym2 (Vec ℝ) := s(s.start, s.stop)

/-- The second segment is the first with both ends moved, drawn in the same or in the other
direction. -/
def RoadSegment.Redrawn (v : Vec ℝ) (s t : RoadSegment ℝ) : Prop :=
  (t.start = s.start + v ∧ t.stop = s.stop + v) ∨ (t.start = s.stop + v ∧ t.stop = s.start + v)

/-- The second list has the segments of the first in some order, each of them redrawn. -/
def Rearranged (v : Vec ℝ) (segments segments' : List (RoadSegment ℝ)) : Prop :=
  ∃ shuffled, List.Perm shuffled segments ∧ List.Forall₂ (RoadSegment.Redrawn v) shuffled segments'

theorem RoadSegment.Redrawn.line_eq {s t : RoadSegment ℝ} (h : s.Redrawn v t) :
    t.line = s.line.map (· + v) := by
  rw [line, line, Sym2.map_mk]
  rcases h with ⟨hstart, hstop⟩ | ⟨hstart, hstop⟩
  · rw [hstart, hstop]
  · rw [hstart, hstop, Sym2.eq_swap]

theorem Rearranged.segmentEnds_eq (h : Rearranged v segments segments') :
    (segmentEnds segments' : Multiset (Vec ℝ)) =
      (segmentEnds segments : Multiset (Vec ℝ)).map (· + v) := by
  obtain ⟨shuffled, hperm, hredrawn⟩ := h
  have hends : (segmentEnds segments').Perm ((segmentEnds shuffled).map (· + v)) := by
    induction hredrawn generalizing segments with
    | nil => rfl
    | @cons s t shuffled segments' hst _ ih =>
        have hrest := ih (List.Perm.refl shuffled)
        rw [segmentEnds, segmentEnds, List.flatMap_cons, List.flatMap_cons, List.map_append]
        refine List.Perm.append ?_ hrest
        rcases hst with ⟨hstart, hstop⟩ | ⟨hstart, hstop⟩
        · rw [hstart, hstop]
          rfl
        · rw [hstart, hstop]
          exact List.Perm.swap _ _ _
  rw [Multiset.map_coe, Multiset.coe_eq_coe]
  exact hends.trans ((hperm.flatMap_right _).map _)

theorem Rearranged.mem_line_iff (h : Rearranged v segments segments') {l : Sym2 (Vec ℝ)} :
    (∃ t ∈ segments', t.line = l) ↔ ∃ s ∈ segments, s.line.map (· + v) = l := by
  obtain ⟨shuffled, hperm, hredrawn⟩ := h
  have hlines : segments'.map RoadSegment.line =
      shuffled.map fun s => s.line.map (· + v) := by
    induction hredrawn generalizing segments with
    | nil => rfl
    | cons hst _ ih =>
        rw [List.map_cons, List.map_cons, hst.line_eq, ih (List.Perm.refl _)]
  rw [← List.mem_map, hlines, List.mem_map]
  simp only [hperm.mem_iff]

namespace AssemblyOptions

theorem IsValid.tolerance_pos (h : o.IsValid) : 0 < o.mergeTolerance := by
  have htolerance := h.1
  rw [Network.isTolerance, Bool.and_eq_true, Bool.not_eq_true',
    decide_eq_false_iff_not] at htolerance
  have hzero : (0.0 : ℝ) = 0 := by norm_num
  rw [hzero] at htolerance
  exact lt_of_not_ge htolerance.2

/-! ## The lines of an assembled network -/

theorem isDrawing_network (hvalid : o.IsValid) (segments : List (RoadSegment ℝ)) :
    (o.network segments).IsDrawing where
  toIsSimple := o.isSimple_network segments
  listsRoads := (o.isCoherent_network segments).listsRoads
  nodup_positions := by
    refine (nearPairs_eq_nil_iff.mp (o.nearPairs_positions_network segments)).imp ?_
    rintro p _ hapart rfl
    exact hapart (isNear_self hvalid.tolerance_pos p)

theorem positionAt_network {c : Nat} (hc : c ∈ o.used segments) :
    (o.network segments).positionAt ((o.used segments).idxOf c) = o.placeOf segments c := by
  rw [Network.positionAt, map_position_network, List.getD_eq_getElem?_getD, List.getElem?_map,
    getElem?_idxOf_used hc, Option.map_some, Option.getD_some]

theorem lines_network (o : AssemblyOptions ℝ) (segments : List (RoadSegment ℝ)) :
    (o.network segments).lines =
      (o.kept segments).map fun p => p.ends.map (o.placeOf segments) := by
  rw [Network.lines, edges_network_eq, List.map_map]
  apply List.map_congr_left
  intro p hp
  rw [Function.comp_apply, ends_edgeOf, Placed.ends, Sym2.map_mk, Sym2.map_mk, Sym2.map_mk,
    positionAt_network (tail_mem_used hp), positionAt_network (head_mem_used hp)]

/-- The clusters of a segment lie at the homes of its ends. -/
theorem placeOf_tailOf_headOf (hvalid : o.IsValid) {i : Nat} {s : RoadSegment ℝ}
    (hs : segments[i]? = some s) :
    o.placeOf segments ((o.clusters segments).tailOf i) =
        home o.mergeTolerance (segmentEnds segments) s.start ∧
      o.placeOf segments ((o.clusters segments).headOf i) =
        home o.mergeTolerance (segmentEnds segments) s.stop := by
  obtain ⟨hstart, hstop⟩ := getElem?_segmentEnds hs
  exact ⟨Clustering.getD_centroids_clusterPoints hvalid.tolerance_pos hstart,
    Clustering.getD_centroids_clusterPoints hvalid.tolerance_pos hstop⟩

/-- The place of a placed segment is its line between the homes of its ends. -/
theorem map_placeOf_ends (hvalid : o.IsValid) {i : Nat} {s : RoadSegment ℝ} {p : Placed ℝ}
    (hs : segments[i]? = some s) (hp : (o.placed segments)[i]? = some p) :
    p.ends.map (o.placeOf segments) =
      s.line.map (home o.mergeTolerance (segmentEnds segments)) := by
  rw [getElem?_placed, hs, Option.map_some, Option.some.injEq] at hp
  obtain ⟨htail, hhead⟩ := placeOf_tailOf_headOf hvalid hs
  subst hp
  rw [Placed.ends, RoadSegment.line, Sym2.map_mk, Sym2.map_mk, htail, hhead]

/-- A segment shrinks when its ends have one home. -/
theorem isDiag_ends_iff_isDiag_line (hvalid : o.IsValid) {i : Nat} {s : RoadSegment ℝ}
    {p : Placed ℝ} (hs : segments[i]? = some s) (hp : (o.placed segments)[i]? = some p) :
    p.ends.IsDiag ↔ (s.line.map (home o.mergeTolerance (segmentEnds segments))).IsDiag := by
  rw [getElem?_placed, hs, Option.map_some, Option.some.injEq] at hp
  rcases getElem?_segmentEnds hs with ⟨hstart, hstop⟩
  subst hp
  rw [Placed.isDiag_ends_iff, RoadSegment.line, Sym2.map_mk, Sym2.mk_isDiag_iff]
  exact Clustering.getD_assignment_clusterPoints_eq_iff hvalid.tolerance_pos hstart hstop

/-- The lines of a network are those of the segments between homes, as far as they do not shrink. -/
theorem mem_lines_network_iff (hvalid : o.IsValid) {l : Sym2 (Vec ℝ)} :
    l ∈ (o.network segments).lines ↔ ¬ l.IsDiag ∧
      ∃ s ∈ segments, s.line.map (home o.mergeTolerance (segmentEnds segments)) = l := by
  rw [lines_network, List.mem_map]
  constructor
  · rintro ⟨p, hp, rfl⟩
    rcases List.mem_iff_getElem?.mp (mem_placed_of_mem_kept hp) with ⟨i, hi⟩
    have hplaced := hi
    rw [getElem?_placed, Option.map_eq_some_iff] at hplaced
    obtain ⟨s, hs, _⟩ := hplaced
    rw [map_placeOf_ends hvalid hs hi]
    refine ⟨?_, s, List.mem_of_getElem? hs, rfl⟩
    exact (isDiag_ends_iff_isDiag_line hvalid hs hi).not.mp (not_isDiag_of_mem_kept hp)
  · rintro ⟨hdiag, s, hs, rfl⟩
    rcases List.mem_iff_getElem?.mp hs with ⟨i, hi⟩
    have hplaced := o.getElem?_placed segments i
    rw [hi, Option.map_some] at hplaced
    have hends := (isDiag_ends_iff_isDiag_line hvalid hi hplaced).not.mpr hdiag
    rcases Placed.exists_mem_keptOf_ends_eq (List.mem_of_getElem? hplaced) hends with ⟨q, hq, heq⟩
    exact ⟨q, hq, by rw [← heq, map_placeOf_ends hvalid hi hplaced]⟩

/-! ## Rearranged drawings -/

theorem map_home_map_add (hvalid : o.IsValid) (h : Rearranged v segments segments')
    {s : RoadSegment ℝ} (hs : s ∈ segments) :
    (s.line.map (· + v)).map (home o.mergeTolerance (segmentEnds segments')) =
      (s.line.map (home o.mergeTolerance (segmentEnds segments))).map (· + v) := by
  have hstart : s.start ∈ (segmentEnds segments : Multiset (Vec ℝ)) :=
    mem_segmentEnds_iff.mpr ⟨s, hs, .inl rfl⟩
  have hstop : s.stop ∈ (segmentEnds segments : Multiset (Vec ℝ)) :=
    mem_segmentEnds_iff.mpr ⟨s, hs, .inr rfl⟩
  rw [RoadSegment.line, Sym2.map_mk, Sym2.map_mk, Sym2.map_mk, Sym2.map_mk, h.segmentEnds_eq,
    home_map_add hvalid.tolerance_pos v hstart, home_map_add hvalid.tolerance_pos v hstop]

theorem mem_lines_network_rearranged_iff (hvalid : o.IsValid) (h : Rearranged v segments segments')
    {l : Sym2 (Vec ℝ)} :
    l ∈ (o.network segments').lines ↔ l ∈ moved v (o.network segments).lines := by
  have hinj : Function.Injective fun x : Vec ℝ => x + v := add_left_injective v
  rw [mem_lines_network_iff hvalid, moved, List.mem_map]
  constructor
  · rintro ⟨hdiag, t, ht, rfl⟩
    rcases h.mem_line_iff.mp ⟨t, ht, rfl⟩ with ⟨s, hs, heq⟩
    rw [← heq, map_home_map_add hvalid h hs] at hdiag ⊢
    rw [Sym2.isDiag_map hinj] at hdiag
    exact ⟨_, (mem_lines_network_iff hvalid).mpr ⟨hdiag, s, hs, rfl⟩, rfl⟩
  · rintro ⟨k, hk, rfl⟩
    rcases (mem_lines_network_iff hvalid).mp hk with ⟨hdiag, s, hs, rfl⟩
    rcases h.mem_line_iff.mpr ⟨s, hs, rfl⟩ with ⟨t, ht, heq⟩
    rw [Sym2.isDiag_map hinj]
    refine ⟨hdiag, t, ht, ?_⟩
    rw [heq, map_home_map_add hvalid h hs]

theorem rules_network (o : AssemblyOptions ℝ) (segments : List (RoadSegment ℝ)) :
    (o.network segments).rules = o.junctions := rfl

theorem isMoved_network (hvalid : o.IsValid) (h : Rearranged v segments segments') :
    Network.IsMoved v (o.network segments) (o.network segments') where
  isDrawing_left := isDrawing_network hvalid segments
  isDrawing_right := isDrawing_network hvalid segments'
  rules_eq := (rules_network o segments').trans (rules_network o segments).symm
  perm_lines := by
    have hinj : Function.Injective fun x : Vec ℝ => x + v := add_left_injective v
    exact (List.perm_ext_iff_of_nodup (isDrawing_network hvalid segments').nodup_lines
      ((isDrawing_network hvalid segments).nodup_lines.map (Sym2.map.injective hinj))).mpr
        fun l => mem_lines_network_rearranged_iff hvalid h

end AssemblyOptions

/-- Over the reals, segments in another order, drawn in other directions from another origin become
the same network. -/
theorem assemble_rearranged (hvalid : o.IsValid) (h : Rearranged v segments segments') :
    ∃ n m, o.assemble segments = .ok n ∧ o.assemble segments' = .ok m ∧ n.SameUpTo v m :=
  ⟨_, _, AssemblyOptions.assemble_eq_ok_iff.mpr ⟨hvalid, rfl⟩,
    AssemblyOptions.assemble_eq_ok_iff.mpr ⟨hvalid, rfl⟩,
    (AssemblyOptions.isMoved_network hvalid h).sameUpTo⟩

theorem isValid_default_real : (AssemblyOptions.default : AssemblyOptions ℝ).IsValid := by
  constructor
  · simp [Network.isTolerance, AssemblyOptions.default, Network.defaultTolerance, Scalar.isFinite]
    norm_num
  · simp [JunctionRules.badRadius?, JunctionRules.radii, AssemblyOptions.default,
      JunctionRules.default, Scalar.isFinite]
    norm_num

/-- A corner and the same corner elsewhere, whose second road comes first and leads back. -/
theorem assemble_corner :
    ∃ n m, AssemblyOptions.assemble (α := ℝ) .default
        [⟨0, ⟨0, 0⟩, ⟨10, 0⟩, 0, "street"⟩, ⟨1, ⟨10, 0⟩, ⟨10, 10⟩, 1, "street"⟩] = .ok n ∧
      AssemblyOptions.assemble .default
        [⟨0, ⟨15, 17⟩, ⟨15, 7⟩, 4, "lane"⟩, ⟨1, ⟨5, 7⟩, ⟨15, 7⟩, 0, "street"⟩] = .ok m ∧
      n.SameUpTo ⟨5, 7⟩ m := by
  refine assemble_rearranged isValid_default_real ⟨_, List.Perm.swap _ _ _, ?_⟩
  refine .cons (.inr ⟨?_, ?_⟩) (.cons (.inl ⟨?_, ?_⟩) .nil)
  all_goals
    ext
    all_goals norm_num

end Roadworks
