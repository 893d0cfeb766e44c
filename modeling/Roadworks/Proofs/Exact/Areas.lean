import Mathlib.Analysis.SpecialFunctions.Complex.Arg
import Roadworks.Proofs.Exact.Sides
/-! # Areas of roads

Where a road is mitred, the bands on the inside of the bend lose what those on the outside gain. The
section is laid out evenly around the middle, so together they cover the width of the road times its
length. -/

namespace Roadworks

open Vec

/-! ## Triangles of quadrilaterals -/

namespace Mesh

variable {a b c d normal a' b' c' d' normal' : Vertex ℝ}

theorem projectedArea_eq (a b c : Vertex ℝ) :
    projectedArea a b c = (b.ground - a.ground).rot90.dot (c.ground - a.ground) / 2 := by
  simp only [projectedArea, Scalar.toSingle_eq, Vertex.ground, dot, rot90, sub_x, sub_y]
  ring

theorem projectedAreas_quad : (empty.pushQuad a b c d normal).projectedAreas =
    some [projectedArea a b c, projectedArea a c d] := rfl

theorem projectedAreas_append_quad :
    ((empty.pushQuad a b c d normal).append
      (empty.pushQuad a' b' c' d' normal')).projectedAreas =
    some ([projectedArea a b c, projectedArea a c d] ++
      [projectedArea a' b' c', projectedArea a' c' d']) := rfl

/-- A triangle with one corner above another covers nothing. -/
theorem projectedArea_eq_zero (h : c.ground = a.ground ∨ c.ground = b.ground) :
    projectedArea a b c = 0 := by
  rw [projectedArea_eq]
  rcases h with h | h
  · simp [h, dot]
  · rw [h, dot, rot90]
    ring

end Mesh

/-! ## Sums over a tiling -/

/-- What bands gain from their left to their right edges adds up to the gain over all of them. -/
theorem Band.Tile.sum_sub {left right : ℝ} {bands : List (Band ℝ)} (h : Tile left bands right)
    (f : ℝ → ℝ) : (bands.map fun b => f b.left - f b.right).sum = f left - f right := by
  induction bands generalizing left with
  | nil =>
      rw [show left = right from h]
      simp
  | cons b bands ih =>
      obtain ⟨rfl, _, hrest⟩ := h
      rw [List.map_cons, List.sum_cons, ih hrest, sub_add_sub_cancel]

/-! ## Areas of bands -/

/-- What a line at offset one loses in length against the middle, between two frames that keep the
width. -/
noncomputable def Frame.spread (f g : Frame ℝ) : ℝ :=
  f.scale * g.scale * f.normal.rot90.dot g.normal

theorem Frame.spread_self (f : Frame ℝ) : f.spread f = 0 := by
  rw [spread, dot, rot90]
  ring

namespace SweepPath

variable {p q : Vec ℝ} {f g : Frame ℝ} {x y : ℝ}

/-- A road of one piece, with the section as it lies at both of its ends. -/
noncomputable def single (p q : Vec ℝ) (f g : Frame ℝ) (x y : ℝ) : SweepPath ℝ :=
  ⟨⟨[p, q]⟩, [f, g], [x, y]⟩

theorem edge_single (offset lift : ℝ) : (single p q f g x y).edge offset lift =
    [(p + f.normal * (offset * f.scale)).lift (x + lift),
      (q + g.normal * (offset * g.scale)).lift (y + lift)] := rfl

/-- The areas of the two triangles of a band, which stand on its right and on its left edge. -/
noncomputable def ribbonAreas (s : SweepPath ℝ) (spread : ℝ) (b : Band ℝ) : List ℝ :=
  [0.5 * (b.left - b.right) * (s.path.length - b.right * spread),
    0.5 * (b.left - b.right) * (s.path.length - b.left * spread)]

/-- What the section covers up to an offset. -/
noncomputable def coverTo (s : SweepPath ℝ) (spread offset : ℝ) : ℝ :=
  offset * s.path.length - 0.5 * offset * offset * spread

theorem sum_ribbonAreas (s : SweepPath ℝ) (spread : ℝ) (b : Band ℝ) :
    (s.ribbonAreas spread b).sum = s.coverTo spread b.left - s.coverTo spread b.right := by
  simp only [ribbonAreas, coverTo, List.sum_cons, List.sum_nil]
  ring

theorem ribbonAreas_pos {s : SweepPath ℝ} {b : Band ℝ} (hlong : 0 < s.path.length)
    (hwide : b.right < b.left) : ∀ a ∈ s.ribbonAreas 0 b, 0 < a := by
  have hhalf : 0 < 0.5 * (b.left - b.right) * s.path.length :=
    mul_pos (mul_pos (by norm_num) (sub_pos.mpr hwide)) hlong
  simpa [ribbonAreas] using hhalf

theorem projectedAreas_ribbon (hf : f.scale * f.normal.dot (q - p).unit.rot90 = 1)
    (hg : g.scale * g.normal.dot (q - p).unit.rot90 = 1) (b : Band ℝ) (lift : ℝ) :
    ((single p q f g x y).ribbon b lift).projectedAreas =
      some ((single p q f g x y).ribbonAreas (f.spread g) b) := by
  have hlength : (single p q f g x y).path.length = p.dist q := Polyline.length_pair p q
  have hstop : q = p + (q - p).unit * p.dist q := by
    rw [Vec.dist, unit_mul_norm, add_sub_cancel]
  rw [ribbon, edge_single, edge_single, strip, strip, Mesh.projectedAreas_quad, ribbonAreas,
    hlength]
  -- Both frames reach one to the left, so only their difference along the road is left.
  · generalize (q - p).unit = u at hf hg hstop
    generalize p.dist q = l at hstop
    subst hstop
    simp only [dot, rot90] at hf hg
    simp only [Mesh.projectedArea_eq, Frame.spread, Vertex.ground, Vec.lift, Vertex.rounded,
      Scalar.toSingle_eq, dot, rot90, sub_x, sub_y, add_x, add_y, mul_x, mul_y]
    congr 2
    · linear_combination (b.left - b.right) * l / 2 * hf
    · congr 1
      linear_combination (b.left - b.right) * l / 2 * hg
  · simp

/-- The face of a curb is upright. -/
theorem exists_face_eq (b : Band ℝ) (height : ℝ) : ∃ c c' d d' normal,
    (single p q f g x y).face b height = .pushQuad .empty c c' d' d normal ∧
      Mesh.projectedArea c c' d' = 0 ∧ Mesh.projectedArea c d' d = 0 := by
  rw [face, edge_single, edge_single]
  cases decide (0.0 ≤ b.inner) with
  | true | false =>
      exact ⟨_, _, _, _, _, rfl, Mesh.projectedArea_eq_zero (.inr rfl),
        Mesh.projectedArea_eq_zero (.inl rfl)⟩

/-- A surface covers what its ribbon covers. -/
theorem projectedAreas_bandSurface (r : Resolved ℝ) {b : Band ℝ} {ribbon : List ℝ}
    (h : ((single p q f g x y).ribbon b (r.liftOf b)).projectedAreas = some ribbon) :
    ∃ face, (∀ a ∈ face, a = 0) ∧
      (RoadSurface.bandSurface (single p q f g x y) r.curbHeight b).mesh.projectedAreas =
        some (ribbon ++ face) := by
  rw [RoadSurface.bandSurface, ← Resolved.liftOf]
  dsimp only
  split
  · obtain ⟨c, c', d, d', normal, hface, hfirst, hsecond⟩ :=
      exists_face_eq (p := p) (q := q) (f := f) (g := g) (x := x) (y := y) b r.curbHeight
    refine ⟨[Mesh.projectedArea c c' d', Mesh.projectedArea c d' d], by simp [hfirst, hsecond], ?_⟩
    rw [hface]
    cases Option.some.inj h
    exact Mesh.projectedAreas_append_quad
  · exact ⟨[], by simp, by rw [h, List.append_nil]⟩

end SweepPath

/-! ## Areas of roads -/

/-- What lists hold together. -/
theorem exists_map_eq_map_some {β : Type} {l : List β} {f : β → Option (List ℝ)} {g : β → ℝ}
    (h : ∀ b ∈ l, ∃ x, f b = some x ∧ x.sum = g b) :
    ∃ xs : List (List ℝ), l.map f = xs.map some ∧ xs.flatten.sum = (l.map g).sum := by
  induction l with
  | nil => exact ⟨[], rfl, rfl⟩
  | cons b l ih =>
      obtain ⟨x, hx, hsum⟩ := h b (by simp)
      obtain ⟨xs, hxs, htotal⟩ := ih fun c hc => h c (by simp [hc])
      refine ⟨x :: xs, by simp [hx, hxs], ?_⟩
      rw [List.flatten_cons, List.sum_append, List.map_cons, List.sum_cons, hsum, htotal]

namespace RoadSurface

/-- The mitres at both ends of road number `i` are free. -/
structure IsFree (n : Network ℝ) (e : Edge ℝ) (i : Nat) (u : Vec ℝ) (limit : ℝ) : Prop where
  first : Frame.IsFree (((passJoin n e.tail i).map (- ·)).getD u) u limit
  last : Frame.IsFree u ((passJoin n e.head i).getD u) limit

/-- What the surfaces of a road cover as seen from above. -/
structure Covers (s : RoadSurface ℝ) (r : Resolved ℝ) (sweep : SweepPath ℝ) : Prop where
  /-- A surface has the two triangles of its ribbon, and upright ones. -/
  areas_surface : ∀ y ∈ s.surfaces, ∃ b ∈ r.crossSection.bands, ∃ ribbon face,
    (sweep.ribbon b (r.liftOf b)).projectedAreas = some ribbon ∧
    y.mesh.projectedAreas = some (ribbon ++ face) ∧ ribbon.length = 2 ∧ ∀ a ∈ face, a = 0
  sum_areas : ∃ areas : List (List ℝ), s.surfaces.map (·.mesh.projectedAreas) = areas.map some ∧
    areas.flatten.sum = r.crossSection.width * sweep.path.length

/-- Bands with these areas cover the width of the road times its length. -/
theorem IsSwept.covers {resolver : StyleResolver ℝ} {e : Edge ℝ} {s : RoadSurface ℝ}
    {p q : Vec ℝ} {f g : Frame ℝ} {x y : ℝ}
    (hswept : s.IsSwept (.ofEdge resolver e) (.single p q f g x y))
    (hf : f.scale * f.normal.dot (q - p).unit.rot90 = 1)
    (hg : g.scale * g.normal.dot (q - p).unit.rot90 = 1) :
    s.Covers (.ofEdge resolver e) (.single p q f g x y) := by
  have hsurface (b : Band ℝ) := SweepPath.projectedAreas_bandSurface (.ofEdge resolver e)
    (SweepPath.projectedAreas_ribbon (x := x) (y := y) hf hg b (Resolved.liftOf _ b))
  refine ⟨?_, ?_⟩
  · intro y hy
    rw [hswept.surfaces_eq] at hy
    obtain ⟨b, hb, rfl⟩ := List.mem_map.mp hy
    obtain ⟨face, hface, hareas⟩ := hsurface b
    exact ⟨b, hb, _, face, SweepPath.projectedAreas_ribbon hf hg b _, hareas, rfl, hface⟩
  · have hband (b : Band ℝ) : ∃ areas, (bandSurface (.single p q f g x y)
        (Resolved.ofEdge resolver e).curbHeight b).mesh.projectedAreas = some areas ∧
          areas.sum = SweepPath.coverTo (.single p q f g x y) (f.spread g) b.left -
            SweepPath.coverTo (.single p q f g x y) (f.spread g) b.right := by
      obtain ⟨face, hface, hareas⟩ := hsurface b
      refine ⟨_, hareas, ?_⟩
      rw [List.sum_append, List.sum_eq_zero hface, add_zero, SweepPath.sum_ribbonAreas]
    obtain ⟨areas, hareas, hsum⟩ := exists_map_eq_map_some fun b _ => hband b
    refine ⟨areas, ?_, ?_⟩
    · rw [hswept.surfaces_eq, List.map_map, ← hareas]
      rfl
    · rw [hsum, (Resolved.tile resolver e).sum_sub, SweepPath.coverTo, SweepPath.coverTo]
      ring

variable {o : BuildOptions ℝ} {n : Network ℝ} {resolver : StyleResolver ℝ} {s : RoadSurface ℝ}
  {e : Edge ℝ} {v w : Node ℝ} {sweep : SweepPath ℝ}

theorem passJoin_eq_none {k : Nat} (h : n.intersectionType k ≠ some .pass) (i : Nat) :
    passJoin n k i = none := by
  rw [passJoin, if_neg h]

/-- A road that was built has one piece. -/
theorem IsBuilt.exists_single (h : s.IsBuilt o n resolver e v w sweep) : ∃ p q x y,
    let u := (w.position - v.position).unit
    sweep = .single p q (.miter (((passJoin n e.tail s.segment).map (- ·)).getD u) u o.miterLimit)
      (.miter u ((passJoin n e.head s.segment).getD u) o.miterLimit) x y ∧ p ≠ q ∧
        (q - p).unit = u := by
  obtain ⟨hne, hcuts, hsweep⟩ := h.sweep_eq_straight
  have hpos := dist_pos_iff.mpr hne
  have hshares := (div_lt_one hpos).mpr hcuts
  rw [add_div] at hshares
  refine ⟨_, _, _, _, hsweep, ?_, unit_between_comm _ _ hshares⟩
  rw [← dist_pos_iff, between_comm w.position, dist_between]
  exact mul_pos hpos (abs_pos.mpr (by linarith))

theorem IsBuilt.covers (h : s.IsBuilt o n resolver e v w sweep)
    (hfree : IsFree n e s.segment (w.position - v.position).unit o.miterLimit) :
    s.Covers (.ofEdge resolver e) sweep := by
  have hfirst := hfree.first.scale_mul_leaving h.norm_arriving h.norm_unit
  have hlast := hfree.last.scale_mul_arriving h.norm_unit h.norm_leaving
  have hswept := h.isSwept
  obtain ⟨p, q, x, y, hsweep, _, hdirection⟩ := h.exists_single
  rw [← hdirection] at hsweep hfirst hlast
  rw [hsweep] at hswept ⊢
  exact hswept.covers hfirst hlast

/-- Where no other road goes on, the mitres are free. -/
theorem isFree_of_ne_pass (htail : n.intersectionType e.tail ≠ some .pass)
    (hhead : n.intersectionType e.head ≠ some .pass) {u : Vec ℝ} (hu : u.norm = 1) (i : Nat)
    (limit : ℝ) : IsFree n e i u limit := by
  refine ⟨?_, ?_⟩
  · rw [passJoin_eq_none htail]
    exact Frame.isFree_self hu limit
  · rw [passJoin_eq_none hhead]
    exact Frame.isFree_self hu limit

/-- A road that stands square at both ends covers all of its rectangle. -/
theorem IsBuilt.areas_ribbon_pos (h : s.IsBuilt o n resolver e v w sweep)
    (htail : n.intersectionType e.tail ≠ some .pass)
    (hhead : n.intersectionType e.head ≠ some .pass) {b : Band ℝ}
    (hb : b ∈ (Resolved.ofEdge resolver e).crossSection.bands) (lift : ℝ) :
    ∃ areas, (sweep.ribbon b lift).projectedAreas = some areas ∧ ∀ a ∈ areas, 0 < a := by
  have hfree := (Frame.isFree_self h.norm_unit o.miterLimit).scale_mul_leaving h.norm_unit
    h.norm_unit
  obtain ⟨p, q, x, y, hsweep, hne, hdirection⟩ := h.exists_single
  rw [passJoin_eq_none htail, passJoin_eq_none hhead, Option.map_none, Option.getD_none] at hsweep
  rw [← hdirection] at hsweep hfree
  rw [hsweep]
  refine ⟨_, SweepPath.projectedAreas_ribbon hfree hfree b lift, ?_⟩
  rw [Frame.spread_self]
  refine SweepPath.ribbonAreas_pos ?_ ((Resolved.tile resolver e).bounds.2 b hb).2.1
  exact (Polyline.length_pair p q).symm ▸ dist_pos_iff.mpr hne

end RoadSurface

/-- The surfaces of a road that is mitred freely cover its width times its length, whatever the
bends at its ends. Where no road goes on at them, every triangle of its ribbons looks up. -/
theorem Builder.build_covers (n : Network ℝ) (b : Builder ℝ) (resolver : StyleResolver ℝ)
    (h : n.validate = .ok ()) :
    ∃ g, (b.build n resolver).2 = .ok g ∧ ∀ s ∈ g.roads, ∃ e v w sweep,
      s.IsBuilt b.options n resolver e v w sweep ∧
      (RoadSurface.IsFree n e s.segment (w.position - v.position).unit b.options.miterLimit →
        s.Covers (.ofEdge resolver e) sweep) ∧
      (n.intersectionType e.tail ≠ some .pass → n.intersectionType e.head ≠ some .pass →
        s.Covers (.ofEdge resolver e) sweep ∧
        ∀ band ∈ (Resolved.ofEdge resolver e).crossSection.bands, ∃ areas,
          (sweep.ribbon band ((Resolved.ofEdge resolver e).liftOf band)).projectedAreas =
            some areas ∧ ∀ a ∈ areas, 0 < a) := by
  obtain ⟨g, hg, hroads⟩ := b.exists_isBuilt resolver h
  refine ⟨g, hg, fun s hs => ?_⟩
  obtain ⟨e, v, w, sweep, hb⟩ := hroads s hs
  refine ⟨e, v, w, sweep, hb, hb.covers, fun htail hhead => ⟨?_, ?_⟩⟩
  · exact hb.covers (RoadSurface.isFree_of_ne_pass htail hhead hb.norm_unit _ _)
  · intro band hband
    exact hb.areas_ribbon_pos htail hhead hband _

theorem CrossSection.width_default : (ofProfile (.default : StyleProfile ℝ)).width = 7 := by
  have hstrips : strips (.default : StyleProfile ℝ) = [(.lane, 3.5), (.lane, 3.5)] := rfl
  rw [width_ofProfile, hstrips]
  norm_num [Band.extent]

theorem Network.isFree_turning {e : Edge ℝ} (htail : e.tail = 0) (hhead : e.head = 1) :
    RoadSurface.IsFree turning e 0 ⟨1, 0⟩ 4.0 := by
  have heast : (⟨1, 0⟩ : Vec ℝ).norm = 1 := by
    norm_num [norm_eq]
  have hnorth : (⟨0, 1⟩ : Vec ℝ).norm = 1 := by
    norm_num [norm_eq]
  have hdead : turning.intersectionType 0 ≠ some .pass := by
    rw [intersectionType_eq_none rfl le_rfl]
    exact (Option.some_ne_none _).symm
  have hjoin : RoadSurface.passJoin turning 1 0 = some ⟨0, 1⟩ := by
    rw [RoadSurface.passJoin, if_pos intersectionType_turning]
    exact approach_turning_one
  refine ⟨?_, ?_⟩
  · rw [htail, RoadSurface.passJoin_eq_none hdead]
    exact Frame.isFree_self heast _
  · rw [hhead, hjoin]
    refine ⟨by norm_num [norm2_eq], ?_⟩
    have hsum : ((⟨1, 0⟩ : Vec ℝ) + ⟨0, 1⟩).norm = √2 := by
      norm_num [norm_eq]
    have hroot : 1 ≤ √(2 : ℝ) := Real.one_le_sqrt.mpr one_le_two
    rw [Option.getD_some, dot_unit_add heast hnorth, hsum, one_div_div]
    refine ((div_le_iff₀ (by linarith)).mpr ?_).trans (le_max_right _ _)
    norm_num
    linarith

theorem Builder.build_covers_turning : Network.turning.validate = .ok () ∧
    ∃ g s areas, ((new .default).build Network.turning fun _ => none).2 = .ok g ∧ s ∈ g.roads ∧
      s.segment = 0 ∧ s.surfaces.map (·.mesh.projectedAreas) = areas.map some ∧
      (areas : List (List ℝ)).flatten.sum = 7 := by
  obtain ⟨g, hg, hroads⟩ := build_covers Network.turning (new .default) (fun _ => none)
    Network.validate_turning
  obtain ⟨s, hs, hsi⟩ := Network.exists_mem_roads_of_build hg Nat.two_pos
  obtain ⟨e, v, w, sweep, hb, hcovers, _⟩ := hroads s hs
  obtain ⟨htail, hhead, hdirection, hlength⟩ := Network.sweep_turning hb hsi
  have hfree := Network.isFree_turning htail hhead
  rw [← hdirection, ← hsi] at hfree
  obtain ⟨areas, hareas, hsum⟩ := (hcovers hfree).sum_areas
  refine ⟨Network.validate_turning, _, s, areas, hg, hs, hsi, hareas, ?_⟩
  rw [hsum, hlength, mul_one]
  exact CrossSection.width_default

end Roadworks
