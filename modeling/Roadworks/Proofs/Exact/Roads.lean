import Roadworks.Proofs.Exact.Trimming
import Roadworks.Proofs.Surface.Sweeping
/-! # Roads over the reals

A road leads straight from the cut at its one end to that at its other end, and climbs evenly on the
whole way between its nodes. -/

namespace Roadworks

open Vec

/-- The point over a share of the way from one node to another. -/
noncomputable def Node.toward (v w : Node ℝ) (t : ℝ) : Vertex ℝ :=
  (between v.position w.position t).lift (v.elevation + (w.elevation - v.elevation) * t)

/-- A road climbs evenly. -/
theorem elevationAt_between {a b : Vec ℝ} (hne : a ≠ b) (za zb : ℝ) {t : ℝ} (h0 : 0 ≤ t)
    (h1 : t ≤ 1) : RoadSurface.elevationAt a b za zb (between a b t) = za + (zb - za) * t := by
  have hpos := norm2_pos_iff.mpr (sub_ne_zero.mpr hne.symm)
  have hshare : (between a b t - a).dot (b - a) / (b - a).norm2 = t := by
    have hway : (between a b t - a).dot (b - a) = t * (b - a).norm2 := by
      simp only [between, dot, norm2, sub_x, sub_y, add_x, add_y, mul_x, mul_y]
      ring
    rw [hway, mul_div_cancel_right₀ _ hpos.ne']
  rw [RoadSurface.elevationAt, hshare, decimal_zero, decimal_one, Scalar.clamp_of_mem h0 h1]

theorem elevationAt_between_symm {a b : Vec ℝ} (hne : a ≠ b) (za zb : ℝ) {t : ℝ} (h0 : 0 ≤ t)
    (h1 : t ≤ 1) : RoadSurface.elevationAt a b za zb (between b a t) = zb + (za - zb) * t := by
  rw [between_comm, elevationAt_between hne za zb (sub_nonneg.mpr h1) (sub_le_self 1 h0)]
  ring

namespace SweepPath

/-- The path of a road that goes straight from one node to another without the shares `s` and `t` of
the way at its ends. It is mitred against the directions that are given. -/
noncomputable def straight (v w : Node ℝ) (s t : ℝ) (arrival departure : Option (Vec ℝ))
    (limit : ℝ) : SweepPath ℝ :=
  let u := (w.position - v.position).unit
  { path := ⟨[between v.position w.position s, between w.position v.position t]⟩
    frames := [.miter (arrival.getD u) u limit, .miter u (departure.getD u) limit]
    elevations := [v.elevation + (w.elevation - v.elevation) * s,
      w.elevation + (v.elevation - w.elevation) * t] }

theorem straight_eq {v w : Node ℝ} (hne : v.position ≠ w.position) {s t : ℝ} (hs : 0 ≤ s)
    (ht : 0 ≤ t) (hst : s + t < 1) (arrival departure : Option (Vec ℝ)) (limit : ℝ) :
    let path : Polyline ℝ :=
      ⟨[between v.position w.position s, between w.position v.position t]⟩
    straight v w s t arrival departure limit =
      ⟨path, path.frames arrival departure limit, path.points.map
        (RoadSurface.elevationAt v.position w.position v.elevation w.elevation)⟩ := by
  intro path
  have hdirection := unit_between_comm v.position w.position hst
  have hframes : path.frames arrival departure limit =
      [.miter (arrival.getD (w.position - v.position).unit) (w.position - v.position).unit limit,
        .miter (w.position - v.position).unit (departure.getD (w.position - v.position).unit)
          limit] := by
    rw [← hdirection]
    rfl
  have hstart := elevationAt_between hne v.elevation w.elevation hs (by linarith)
  have hstop := elevationAt_between_symm hne v.elevation w.elevation ht (by linarith)
  rw [hframes, List.map_cons, List.map_cons, List.map_nil, hstart, hstop, straight]

theorem edge_straight (v w : Node ℝ) (s t : ℝ) (arrival departure : Option (Vec ℝ))
    (limit offset lift : ℝ) :
    let u := (w.position - v.position).unit
    let first := Frame.miter (arrival.getD u) u limit
    let last := Frame.miter u (departure.getD u) limit
    (straight v w s t arrival departure limit).edge offset lift =
      [(between v.position w.position s + first.normal * (offset * first.scale)).lift
          (v.elevation + (w.elevation - v.elevation) * s + lift),
        (between w.position v.position t + last.normal * (offset * last.scale)).lift
          (w.elevation + (v.elevation - w.elevation) * t + lift)] := rfl

/-- The middle of a road does not depend on how it is mitred. -/
theorem edge_straight_zero (v w : Node ℝ) (s t : ℝ) (arrival departure : Option (Vec ℝ))
    (limit : ℝ) :
    (straight v w s t arrival departure limit).edge 0.0 0.0 = [v.toward w s, w.toward v t] := by
  have hstay (p x : Vec ℝ) (k : ℝ) : p + x * (0 * k) = p := by
    ext <;> simp
  rw [edge_straight]
  simp only [decimal_zero, hstay, add_zero, Node.toward]

end SweepPath

namespace BuildOptions

variable {o : BuildOptions ℝ} {n : Network ℝ} {resolver : StyleResolver ℝ} {i : Nat} {e : Edge ℝ}
  {v w : Node ℝ}

/-- A road is swept along the straight path between its cuts, if that is long enough. -/
theorem sweep?_eq (o : BuildOptions ℝ) (resolver : StyleResolver ℝ) (he : n.edges[i]? = some e)
    (hv : n.nodes[e.tail]? = some v) (hw : n.nodes[e.head]? = some w) :
    let l := v.position.dist w.position
    let s := max 0 (RoadSurface.trim (n.patches resolver) e.tail)
    let t := max 0 (RoadSurface.trim (n.patches resolver) e.head)
    o.sweep? n resolver i =
      if l ≤ Polyline.vertexGap ∨ l - s - t ≤ Polyline.vertexGap then none
      else some (.straight v w (s / l) (t / l) ((RoadSurface.passJoin n e.tail i).map (- ·))
        (RoadSurface.passJoin n e.head i) o.miterLimit) := by
  intro l s t
  have hs : 0 ≤ s := le_max_left _ _
  have ht : 0 ≤ t := le_max_left _ _
  simp only [sweep?, he, hv, hw, bind, Option.bind_some]
  rw [← Polyline.trimmed_max, Polyline.trimmed_line _ _ hs ht]
  split
  · rfl
  · next hlong =>
      rw [not_or, not_le, not_le] at hlong
      have hl : 0 < l := Polyline.vertexGap_pos.trans hlong.1
      have hst : s / l + t / l < 1 := by
        rw [← add_div, div_lt_one hl]
        linarith [Polyline.vertexGap_pos]
      rw [SweepPath.straight_eq (dist_pos_iff.mp hl) (div_nonneg hs hl.le) (div_nonneg ht hl.le)
        hst]
      rfl

/-- A road that is longer than what is cut off has a surface. -/
theorem exists_mem_roads (o : BuildOptions ℝ) (resolver : StyleResolver ℝ)
    (he : n.edges[i]? = some e) (hv : n.nodes[e.tail]? = some v) (hw : n.nodes[e.head]? = some w)
    (hlong : Polyline.vertexGap < v.position.dist w.position -
      max 0 (RoadSurface.trim (n.patches resolver) e.tail) -
      max 0 (RoadSurface.trim (n.patches resolver) e.head)) :
    ∃ s ∈ (o.surfaces n resolver).roads, s.segment = i := by
  have hs : 0 ≤ max 0 (RoadSurface.trim (n.patches resolver) e.tail) := le_max_left _ _
  have ht : 0 ≤ max 0 (RoadSurface.trim (n.patches resolver) e.head) := le_max_left _ _
  have hrest : ¬ (v.position.dist w.position ≤ Polyline.vertexGap ∨
      v.position.dist w.position - max 0 (RoadSurface.trim (n.patches resolver) e.tail) -
        max 0 (RoadSurface.trim (n.patches resolver) e.head) ≤ Polyline.vertexGap) := by
    rw [not_or, not_le, not_le]
    exact ⟨by linarith, hlong⟩
  rw [(o.isListing_roads n resolver).exists_mem_iff, o.outcome?_eq_sweep? resolver he hv hw,
    o.sweep?_eq resolver he hv hw, if_neg hrest]
  exact ⟨_, rfl⟩

theorem length_edge_sweep (h : n.validate = .ok ()) (he : n.edges[i]? = some e)
    {sweep : SweepPath ℝ} (hsweep : o.sweep? n resolver i = some sweep) (offset lift : ℝ) :
    (sweep.edge offset lift).length = 2 := by
  obtain ⟨htail, hhead, _⟩ := (Network.validate_eq_ok_iff.mp h).1 e (List.mem_of_getElem? he)
  rw [o.sweep?_eq resolver he (List.getElem?_eq_getElem htail) (List.getElem?_eq_getElem hhead)]
    at hsweep
  obtain ⟨_, heq⟩ := (Option.ite_none_left_eq_some ..).mp hsweep
  rw [← Option.some.inj heq, SweepPath.edge_straight]
  rfl

end BuildOptions

namespace RoadSurface.IsBuilt

variable {o : BuildOptions ℝ} {n : Network ℝ} {resolver : StyleResolver ℝ} {s : RoadSurface ℝ}
  {e : Edge ℝ} {v w : Node ℝ} {sweep : SweepPath ℝ}

/-- A road that was built leads straight from cut to cut, and something is left between them. -/
theorem sweep_eq_straight (h : s.IsBuilt o n resolver e v w sweep) :
    let l := v.position.dist w.position
    let x := max 0 (trim (n.patches resolver) e.tail)
    let y := max 0 (trim (n.patches resolver) e.head)
    v.position ≠ w.position ∧ x + y < l ∧
      sweep = .straight v w (x / l) (y / l) ((passJoin n e.tail s.segment).map (- ·))
        (passJoin n e.head s.segment) o.miterLimit := by
  intro l x y
  have hsweep := h.sweep_eq
  rw [o.sweep?_eq resolver h.edge_eq h.tail_eq h.head_eq] at hsweep
  obtain ⟨hlong, heq⟩ := (Option.ite_none_left_eq_some ..).mp hsweep
  rw [not_or, not_le, not_le] at hlong
  have hgap := Polyline.vertexGap_pos
  refine ⟨dist_pos_iff.mp (hgap.trans hlong.1), ?_, (Option.some.inj heq).symm⟩
  have hrest : Polyline.vertexGap < l - x - y := hlong.2
  linarith

theorem sub_ne_zero (h : s.IsBuilt o n resolver e v w sweep) : w.position - v.position ≠ 0 := by
  intro hzero
  exact h.sweep_eq_straight.1 (eq_of_sub_eq_zero hzero).symm

theorem norm_unit (h : s.IsBuilt o n resolver e v w sweep) :
    (w.position - v.position).unit.norm = 1 :=
  Vec.norm_unit h.sub_ne_zero

end RoadSurface.IsBuilt

end Roadworks
