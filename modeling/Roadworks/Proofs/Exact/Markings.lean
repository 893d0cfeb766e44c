import Mathlib.Analysis.SpecialFunctions.Complex.Arg
import Roadworks.Proofs.Exact.Joints
import Roadworks.Proofs.Exact.Turning
import Roadworks.Proofs.Exact.Widths
/-! # Painted lines

A dashed line takes up a new dash with every period and cuts the last one off where the road ends,
the other lines run all along it. Each rectangle lies over the middle of its part of the road. -/

namespace Roadworks

open Vec

/-! ## Dashes -/

namespace Marking

/-- One run of the loop that places dashes on a piece from `start` on. -/
inductive Run (dash period : ℝ) (piece : Interval ℝ) : ℝ → List (Interval ℝ) → Prop where
  | stop {start : ℝ} (h : piece.max ≤ start) : Run dash period piece start []
  | step {start : ℝ} {rest : List (Interval ℝ)} (h : start < piece.max)
      (hrest : Run dash period piece (start + period) rest) :
      Run dash period piece start
        (((⟨start, start + dash⟩ : Interval ℝ).intersect piece).toList ++ rest)

variable {dash period start : ℝ} {piece : Interval ℝ} {spans : List (Interval ℝ)}

/-- The loop comes to its end in as many rounds as periods reach to the end of the piece. -/
theorem run_dashesFrom {fuel : Nat} (h : piece.max ≤ start + fuel * period) :
    Run dash period piece start (dashesFrom fuel dash period piece start) := by
  induction fuel generalizing start with
  | zero => exact .stop (by simpa using h)
  | succ fuel ih =>
      rw [dashesFrom]
      split
      · next hmore =>
          refine .step hmore (ih (h.trans_eq ?_))
          push_cast
          ring
      · next hdone => exact .stop (not_lt.mp hdone)

theorem ofInt_eq (n : ℤ) : (ofInt n : ℝ) = n := by
  rw [ofInt]
  split
  · next hneg =>
      rw [Nat.cast_natAbs, abs_of_neg hneg]
      simp
  · next hpos =>
      rw [Nat.cast_natAbs, abs_of_nonneg (not_lt.mp hpos)]

/-- The rounds that a piece is given are enough for its length. -/
theorem run_dashes (m : MarkingPattern ℝ) (h : 0 < m.dashLength + m.gapLength)
    (piece : Interval ℝ) :
    Run m.dashLength (m.dashLength + m.gapLength) piece
      (⌊piece.min / (m.dashLength + m.gapLength)⌋ * (m.dashLength + m.gapLength))
      (dashes m piece) := by
  rw [dashes, ofInt_eq]
  refine run_dashesFrom ?_
  generalize m.dashLength + m.gapLength = period at h
  let rounds := 2 * (⌊piece.max / period⌋ - ⌊piece.min / period⌋).toNat + 4
  have hrounds : ⌊piece.max / period⌋ + 1 ≤ ⌊piece.min / period⌋ + rounds := by
    simp only [rounds]
    omega
  calc piece.max ≤ (⌊piece.max / period⌋ + 1) * period :=
        ((div_lt_iff₀ h).mp (Int.lt_floor_add_one _)).le
    _ ≤ (⌊piece.min / period⌋ + rounds) * period :=
        mul_le_mul_of_nonneg_right (by exact_mod_cast hrounds) h.le
    _ = ⌊piece.min / period⌋ * period + rounds * period := add_mul _ _ _

/-- The part of the line that is painted in round number `k`. -/
noncomputable def dashAt (dash period start : ℝ) (k : ℕ) : Interval ℝ :=
  ⟨start + k * period, start + k * period + dash⟩

theorem dashAt_succ (dash period start : ℝ) (k : ℕ) :
    dashAt dash period start (k + 1) = dashAt dash period (start + period) k := by
  have hstart : start + (k + 1 : ℕ) * period = start + period + k * period := by
    push_cast
    ring
  rw [dashAt, hstart, dashAt]

/-- Every round places the dash of one period. -/
theorem Run.eq_flatMap (hperiod : 0 < period) (h : Run dash period piece start spans) :
    spans = (List.range ⌈(piece.max - start) / period⌉₊).flatMap fun k =>
      ((dashAt dash period start k).intersect piece).toList := by
  induction h with
  | stop hdone =>
      rw [Nat.ceil_eq_zero.mpr (div_nonpos_of_nonpos_of_nonneg (sub_nonpos.mpr hdone) hperiod.le)]
      rfl
  | @step start rest hmore _ ih =>
      -- What is left to the end is one period less, so one round is taken off the front.
      have hrounds : ⌈(piece.max - start) / period⌉₊ =
          ⌈(piece.max - (start + period)) / period⌉₊ + 1 := by
        have hone : (piece.max - (start + period)) / period = (piece.max - start) / period - 1 := by
          field_simp
          ring
        have hceil : 0 < ⌈(piece.max - start) / period⌉₊ :=
          Nat.ceil_pos.mpr (div_pos (sub_pos.mpr hmore) hperiod)
        rw [hone, Nat.ceil_sub_one, Nat.sub_add_cancel hceil]
      have hfirst : (⟨start, start + dash⟩ : Interval ℝ) = dashAt dash period start 0 := by
        simp [dashAt]
      rw [hrounds, List.range_succ_eq_map, List.flatMap_cons, List.flatMap_map, ih, hfirst]
      simp only [dashAt_succ, Nat.succ_eq_add_one]

end Marking

namespace MarkingPattern

variable {m : MarkingPattern ℝ} {length : ℝ}

/-- The part that is painted in round number `k` on a road of the given length. -/
noncomputable def dash (m : MarkingPattern ℝ) (length : ℝ) (k : ℕ) : Interval ℝ :=
  ⟨k * (m.dashLength + m.gapLength), min (k * (m.dashLength + m.gapLength) + m.dashLength) length⟩

theorem dash_bounds (hdash : 0 < m.dashLength) (hgap : 0 < m.gapLength) {k : ℕ}
    (hk : k < ⌈length / (m.dashLength + m.gapLength)⌉₊) :
    0 ≤ (m.dash length k).min ∧ (m.dash length k).min < (m.dash length k).max ∧
      (m.dash length k).max ≤ length := by
  have hperiod : 0 < m.dashLength + m.gapLength := add_pos hdash hgap
  have hstart : k * (m.dashLength + m.gapLength) < length :=
    (lt_div_iff₀ hperiod).mp (Nat.lt_ceil.mp hk)
  exact ⟨mul_nonneg (Nat.cast_nonneg k) hperiod.le, lt_min (lt_add_of_pos_right _ hdash) hstart,
    min_le_right _ _⟩

/-- Two dashes have a gap between them. -/
theorem dash_lt_dash (hdash : 0 < m.dashLength) (hgap : 0 < m.gapLength) {i j : ℕ} (hij : i < j) :
    (m.dash length i).max < (m.dash length j).min := by
  have hnext : (i : ℝ) + 1 ≤ j := by
    exact_mod_cast hij
  have hperiod : 0 < m.dashLength + m.gapLength := add_pos hdash hgap
  calc (m.dash length i).max ≤ i * (m.dashLength + m.gapLength) + m.dashLength := min_le_left _ _
    _ < (i + 1) * (m.dashLength + m.gapLength) := by linarith
    _ ≤ j * (m.dashLength + m.gapLength) := mul_le_mul_of_nonneg_right hnext hperiod.le

end MarkingPattern

/-- On a road the dashes begin with whole periods, and the last one is cut off. -/
theorem Marking.dashes_eq {m : MarkingPattern ℝ} (hdash : 0 < m.dashLength)
    (hgap : 0 < m.gapLength) (length : ℝ) : dashes m ⟨0, length⟩ =
      (List.range ⌈length / (m.dashLength + m.gapLength)⌉₊).map (m.dash length) := by
  have hrun := (run_dashes m (add_pos hdash hgap) ⟨0, length⟩).eq_flatMap (add_pos hdash hgap)
  rw [hrun, List.map_eq_flatMap]
  simp only [zero_div, Int.floor_zero, Int.cast_zero, zero_mul, sub_zero]
  refine List.flatMap_congr fun k hk => ?_
  obtain ⟨hmin, hwide, _⟩ := MarkingPattern.dash_bounds hdash hgap (List.mem_range.mp hk)
  have hlow : Scalar.max (dashAt m.dashLength (m.dashLength + m.gapLength) 0 k).min 0 =
      (m.dash length k).min := by
    rw [Scalar.max_eq, dashAt, zero_add]
    exact max_eq_left hmin
  have hhigh : Scalar.min (dashAt m.dashLength (m.dashLength + m.gapLength) 0 k).max length =
      (m.dash length k).max := by
    rw [Scalar.min_eq, dashAt, zero_add]
    rfl
  rw [Interval.intersect, hlow, hhigh]
  exact congrArg Option.toList (if_pos hwide)

/-! ## Lines of a style -/

theorem CrossSection.style_mem_of_mem_linesFrom {m : MarkingPattern ℝ} {lanes seen : Nat}
    {previous : Option BandKind} {bands : List (Band ℝ)} {b : Boundary ℝ}
    (h : b ∈ linesFrom m lanes seen previous bands) : b.style ∈ [m.centre, m.lane, m.edge] := by
  fun_induction linesFrom m lanes seen previous bands with
  | case1 => cases h
  | case2 seen previous c rest hlane here last ih =>
      rcases List.mem_cons.mp h with rfl | h
      · simp only [here]
        split
        · split <;> simp
        · simp
      · rcases List.mem_append.mp h with h | h
        · simp only [last] at h
          split at h
          · cases h
          · simp [List.mem_singleton.mp h]
        · exact ih h
  | case3 seen previous c rest hlane ih => exact ih h

/-- A style without fault has dashes and gaps if it has a dashed line. -/
theorem StyleProfile.dashes_pos_of_fault?_eq_none {p : StyleProfile ℝ} (h : p.fault? = none)
    {b : Boundary ℝ} (hb : b ∈ (CrossSection.ofProfile p).boundaries) (hstyle : b.style = .dashed) :
    0 < p.markings.dashLength ∧ 0 < p.markings.gapLength := by
  have hdashed : isDashed p.markings = true := by
    rw [isDashed, List.contains_iff_mem, ← hstyle]
    exact CrossSection.style_mem_of_mem_linesFrom (List.mem_of_mem_filter hb)
  have hfault : markingFault? p.markings = none := by
    rw [fault?] at h
    split_ifs at h
    exact (Option.or_eq_none_iff.mp h).1
  rw [markingFault?, hdashed] at hfault
  split_ifs at hfault with _ hlengths
  simp only [Bool.true_and, Bool.not_eq_true', Bool.not_eq_false, Bool.and_eq_true] at hlengths
  exact ⟨isPositive_iff.mp hlengths.1, isPositive_iff.mp hlengths.2⟩

theorem Resolved.dashes_pos (resolver : StyleResolver ℝ) (e : Edge ℝ) :
    ∀ b ∈ (ofEdge resolver e).crossSection.boundaries, b.style = .dashed →
      0 < (ofEdge resolver e).profile.markings.dashLength ∧
        0 < (ofEdge resolver e).profile.markings.gapLength := by
  obtain ⟨p, hfault, hstyle⟩ := exists_eq_ofProfile resolver e
  rw [hstyle]
  exact fun b hb => StyleProfile.dashes_pos_of_fault?_eq_none hfault hb

/-- What is painted for a boundary of a road: offsets, and the parts of the length they take. -/
noncomputable def Boundary.stripes (b : Boundary ℝ) (m : MarkingPattern ℝ) (length : ℝ) :
    List (ℝ × Interval ℝ) :=
  match b.style with
  | .none => []
  | .solid => [(b.offset, ⟨0, length⟩)]
  | .doubleSolid => [(b.offset + m.lineWidth, ⟨0, length⟩), (b.offset - m.lineWidth, ⟨0, length⟩)]
  | .dashed => (List.range ⌈length / (m.dashLength + m.gapLength)⌉₊).map fun k =>
      (b.offset, m.dash length k)

theorem Boundary.flatMap_offsets {β : Type} {b : Boundary ℝ} {m : MarkingPattern ℝ}
    (h : b.style = .dashed → 0 < m.dashLength ∧ 0 < m.gapLength) (length : ℝ)
    (f : ℝ → Interval ℝ → β) :
    ((Marking.offsets b m).flatMap fun offset => (Marking.spans b m ⟨0, length⟩).map (f offset)) =
      (b.stripes m length).map fun x => f x.1 x.2 := by
  rw [Marking.offsets, Marking.spans, stripes]
  cases hstyle : b.style with
  | none => rfl
  | solid => rfl
  | doubleSolid => rfl
  | dashed =>
      obtain ⟨hdash, hgap⟩ := h hstyle
      simp [Marking.dashes_eq hdash hgap]

/-! ## Rectangles -/

namespace Marking

/-- The rectangle over a part of the way from `v` to `w`, counted from the cut at its start: beside
the middle of the part, at the height that the ground has there, and along the road. -/
noncomputable def onRoad (v w : Node ℝ) (cut lift : ℝ) (m : MarkingPattern ℝ) (role : BoundaryRole)
    (offset : ℝ) (span : Interval ℝ) : Marking ℝ :=
  let t := (cut + 0.5 * (span.min + span.max)) / v.position.dist w.position
  let left := (w.position - v.position).unit.rot90
  { position := (between v.position w.position t + left * offset).lift
      (v.elevation + (w.elevation - v.elevation) * t + lift)
    heading := (w.position - v.position).heading
    length := span.max - span.min
    width := m.lineWidth
    role := role }

variable {v w : Node ℝ} {x y : ℝ}

/-- On what the cuts leave of a road, every rectangle lies over its part of the way. -/
theorem place_eq_onRoad (hne : v.position ≠ w.position) (hx : 0 ≤ x) (hy : 0 ≤ y)
    (hcuts : x + y < v.position.dist w.position) (b : Boundary ℝ) (m : MarkingPattern ℝ)
    (lift offset : ℝ) {span : Interval ℝ} (hmin : 0 ≤ span.min) (hspan : span.min ≤ span.max)
    (hmax : span.max ≤ v.position.dist w.position - x - y) :
    let path : Polyline ℝ := ⟨[between v.position w.position (x / v.position.dist w.position),
      between w.position v.position (y / v.position.dist w.position)]⟩
    place path b m (fun s => RoadSurface.elevationAt v.position w.position v.elevation w.elevation
      (path.sample s) + lift) offset span = onRoad v w x lift m b.role offset span := by
  intro path
  have hpos := dist_pos_iff.mpr hne
  have hmiddle : span.midpoint = 0.5 * (span.min + span.max) := by
    rw [Interval.midpoint, decimal_one]
    ring
  have hunit := norm_unit (sub_ne_zero.mpr hne.symm)
  have hdirection (s : ℝ) : path.derivative s = (w.position - v.position).unit :=
    Polyline.derivative_between hpos hcuts s
  have hsample : path.sample span.midpoint = between v.position w.position
      ((x + 0.5 * (span.min + span.max)) / v.position.dist w.position) := by
    rw [hmiddle]
    exact Polyline.sample_between hpos hcuts (by linarith) (by linarith)
  have helevation := elevationAt_between hne v.elevation w.elevation
    (t := (x + 0.5 * (span.min + span.max)) / v.position.dist w.position)
    (div_nonneg (by linarith) hpos.le) (div_le_one_of_le₀ (by linarith) hpos.le)
  have hheading := heading_unit (sub_ne_zero.mpr hne.symm)
  simp only [place, Curve.offset, Polyline.toCurve, hsample, hdirection, helevation,
    unit_eq_self hunit, hheading, onRoad, Scalar.toSingle_eq, Interval.length]

end Marking

/-! ## Markings of roads -/

namespace RoadSurface

/-- The markings of a road are those of its boundaries, from the cut at its start on. -/
structure IsPainted (s : RoadSurface ℝ) (r : Resolved ℝ) (v w : Node ℝ) (cut lift length : ℝ) :
    Prop where
  markings_eq : s.markings = r.crossSection.boundaries.flatMap fun b =>
    (b.stripes r.profile.markings length).map fun x =>
      Marking.onRoad v w cut lift r.profile.markings b.role x.1 x.2
  /-- Every part is painted on the road and takes some of its length. -/
  span_bounds : ∀ b ∈ r.crossSection.boundaries, ∀ x ∈ b.stripes r.profile.markings length,
    0 ≤ x.2.min ∧ x.2.min < x.2.max ∧ x.2.max ≤ length
  dashes_apart : ∀ b ∈ r.crossSection.boundaries, b.style = .dashed →
    (b.stripes r.profile.markings length).Pairwise fun x y => x.2.max < y.2.min
  /-- The loop that places dashes ends with them. -/
  run : ∀ b ∈ r.crossSection.boundaries, b.style = .dashed →
    Marking.Run r.profile.markings.dashLength
      (r.profile.markings.dashLength + r.profile.markings.gapLength) ⟨0, length⟩ 0
      ((b.stripes r.profile.markings length).map (·.2))

end RoadSurface

namespace Boundary

variable {b : Boundary ℝ} {m : MarkingPattern ℝ} {length : ℝ}

theorem span_bounds (h : b.style = .dashed → 0 < m.dashLength ∧ 0 < m.gapLength)
    (hlength : 0 < length) {x : ℝ × Interval ℝ} (hx : x ∈ b.stripes m length) :
    0 ≤ x.2.min ∧ x.2.min < x.2.max ∧ x.2.max ≤ length := by
  cases hstyle : b.style with
  | none => simp [stripes, hstyle] at hx
  | solid =>
      simp only [stripes, hstyle, List.mem_singleton] at hx
      simpa [hx] using hlength
  | doubleSolid =>
      simp only [stripes, hstyle, List.mem_pair] at hx
      rcases hx with rfl | rfl
      · simpa using hlength
      · simpa using hlength
  | dashed =>
      obtain ⟨hdash, hgap⟩ := h hstyle
      simp only [stripes, hstyle, List.mem_map, List.mem_range] at hx
      obtain ⟨k, hk, rfl⟩ := hx
      exact MarkingPattern.dash_bounds hdash hgap hk

theorem stripes_of_dashed (h : b.style = .dashed) (m : MarkingPattern ℝ) (length : ℝ) :
    b.stripes m length = (List.range ⌈length / (m.dashLength + m.gapLength)⌉₊).map fun k =>
      (b.offset, m.dash length k) := by
  rw [stripes, h]

theorem pairwise_stripes (h : b.style = .dashed) (hdash : 0 < m.dashLength)
    (hgap : 0 < m.gapLength) (length : ℝ) :
    (b.stripes m length).Pairwise fun x y => x.2.max < y.2.min := by
  rw [stripes_of_dashed h, List.pairwise_map]
  exact List.pairwise_lt_range.imp fun hlt => MarkingPattern.dash_lt_dash hdash hgap hlt

theorem run_stripes (h : b.style = .dashed) (hdash : 0 < m.dashLength)
    (hgap : 0 < m.gapLength) (length : ℝ) :
    Marking.Run m.dashLength (m.dashLength + m.gapLength) ⟨0, length⟩ 0
      ((b.stripes m length).map (·.2)) := by
  have hrun := Marking.run_dashes m (add_pos hdash hgap) ⟨0, length⟩
  rw [Marking.dashes_eq hdash hgap, zero_div, Int.floor_zero, Int.cast_zero, zero_mul] at hrun
  rw [stripes_of_dashed h, List.map_map]
  exact hrun

end Boundary

theorem Marking.alongPath_pair {b : Boundary ℝ} {m : MarkingPattern ℝ}
    (h : b.style = .dashed → 0 < m.dashLength ∧ 0 < m.gapLength) (p q : Vec ℝ)
    (elevation : ℝ → ℝ) : alongPath ⟨[p, q]⟩ m elevation b =
      (b.stripes m (p.dist q)).map fun x => place ⟨[p, q]⟩ b m elevation x.1 x.2 := by
  rw [alongPath, Polyline.pieces_pair, ← b.flatMap_offsets h]
  simp only [List.flatMap_singleton]

namespace RoadSurface

theorem IsBuilt.isPainted {o : BuildOptions ℝ} {n : Network ℝ} {resolver : StyleResolver ℝ}
    {s : RoadSurface ℝ} {e : Edge ℝ} {v w : Node ℝ} {sweep : SweepPath ℝ}
    (h : s.IsBuilt o n resolver e v w sweep) :
    s.IsPainted (.ofEdge resolver e) v w (max 0 (trim (n.patches resolver) e.tail)) o.markingLift
      sweep.path.length := by
  have hdashed := Resolved.dashes_pos resolver e
  have hmarkings := congrArg RoadSurface.markings h.surface_eq
  obtain ⟨hne, hcuts, hsweep⟩ := h.sweep_eq_straight
  have hpos := dist_pos_iff.mpr hne
  have hlength : sweep.path.length = v.position.dist w.position -
      max 0 (trim (n.patches resolver) e.tail) - max 0 (trim (n.patches resolver) e.head) := by
    rw [hsweep, SweepPath.straight, Polyline.length_pair, dist_between_comm hcuts hpos]
  have hlong : 0 < sweep.path.length := by
    linarith
  refine ⟨?_, ?_, ?_, ?_⟩
  · rw [hmarkings]
    refine List.flatMap_congr fun b hb => ?_
    have hbounds := fun x hx => Boundary.span_bounds (hdashed b hb) hlong (x := x) hx
    rw [hlength] at hbounds ⊢
    rw [hsweep, SweepPath.straight]
    dsimp only
    rw [Marking.alongPath_pair (hdashed b hb), dist_between_comm hcuts hpos]
    refine List.map_congr_left fun x hx => ?_
    obtain ⟨hmin, hspan, hmax⟩ := hbounds x hx
    exact Marking.place_eq_onRoad hne (le_max_left _ _) (le_max_left _ _) hcuts b _ _ _ hmin
      hspan.le hmax
  · intro b hb x hx
    exact Boundary.span_bounds (hdashed b hb) hlong hx
  · intro b hb hstyle
    obtain ⟨hdash, hgap⟩ := hdashed b hb hstyle
    exact Boundary.pairwise_stripes hstyle hdash hgap _
  · intro b hb hstyle
    obtain ⟨hdash, hgap⟩ := hdashed b hb hstyle
    exact Boundary.run_stripes hstyle hdash hgap _

end RoadSurface

/-- Every painted line of every road lies where its style puts it. -/
theorem Builder.build_painted (n : Network ℝ) (b : Builder ℝ) (resolver : StyleResolver ℝ)
    (h : n.validate = .ok ()) :
    ∃ g, (b.build n resolver).2 = .ok g ∧ ∀ s ∈ g.roads, ∃ e v w sweep,
      s.IsBuilt b.options n resolver e v w sweep ∧
      s.IsPainted (.ofEdge resolver e) v w
        (max 0 (RoadSurface.trim (n.patches resolver) e.tail)) b.options.markingLift
        sweep.path.length ∧
      ∀ k ∈ s.markings, 0 ≤ k.heading ∧ k.heading < 2 * Real.pi ∧
        ofHeading k.heading = (w.position - v.position).unit := by
  obtain ⟨g, hg, hroads⟩ := b.exists_isBuilt resolver h
  refine ⟨g, hg, fun s hs => ?_⟩
  obtain ⟨e, v, w, sweep, hb⟩ := hroads s hs
  have hpainted := hb.isPainted
  refine ⟨e, v, w, sweep, hb, hpainted, fun k hk => ?_⟩
  rw [hpainted.markings_eq] at hk
  obtain ⟨c, _, hk⟩ := List.mem_flatMap.mp hk
  obtain ⟨x, _, rfl⟩ := List.mem_map.mp hk
  refine ⟨heading_nonneg _, heading_lt _, ?_⟩
  rw [Marking.onRoad, ← heading_unit hb.sub_ne_zero]
  exact ofHeading_heading hb.norm_unit

/-- A street has lines along its edges and a dashed one in the middle. -/
theorem CrossSection.exists_boundaries_default : ∃ left middle right,
    (ofProfile (.default : StyleProfile ℝ)).boundaries =
      [⟨left, .edge, .solid⟩, ⟨middle, .centre, .dashed⟩, ⟨right, .edge, .solid⟩] :=
  ⟨_, _, _, rfl⟩

/-- On a road that is shorter than a dash, all of them run along it. -/
theorem Builder.build_painted_turning : Network.turning.validate = .ok () ∧
    ∃ g s, ((new .default).build Network.turning fun _ => none).2 = .ok g ∧ s ∈ g.roads ∧
      s.markings.map (·.length) = [1, 1, 1] := by
  obtain ⟨g, hg, hroads⟩ := build_painted Network.turning (new .default) (fun _ => none)
    Network.validate_turning
  obtain ⟨s, hs, hsi⟩ := Network.exists_mem_roads_of_build hg Nat.two_pos
  obtain ⟨e, v, w, sweep, hb, hpainted, _⟩ := hroads s hs
  obtain ⟨_, _, _, hlength⟩ := Network.sweep_turning hb hsi
  obtain ⟨left, middle, right, hboundaries⟩ := CrossSection.exists_boundaries_default
  have hstyle : Resolved.ofEdge (fun _ => none) e = .ofProfile (.default : StyleProfile ℝ) := rfl
  have hdashes : ⌈(3.0 + 4.0 : ℝ)⁻¹⌉₊ = 1 := by
    rw [Nat.ceil_eq_iff one_ne_zero]
    norm_num
  have hcut : min (3.0 : ℝ) 1 = 1 := by
    norm_num
  refine ⟨Network.validate_turning, _, s, hg, hs, ?_⟩
  rw [hpainted.markings_eq, hlength, hstyle, Resolved.ofProfile, hboundaries]
  simp [Boundary.stripes, Marking.onRoad, MarkingPattern.dash, StyleProfile.default,
    MarkingPattern.default, hdashes, hcut]

end Roadworks
