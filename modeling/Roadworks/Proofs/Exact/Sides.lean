import Roadworks.Proofs.Exact.Bands
import Roadworks.Proofs.Exact.Joints
import Roadworks.Proofs.Exact.Mitres
/-! # Left is left at both ends of a road

A section that is swept along a road does not change sides: what lies farther left in it lies
farther left of the road. At its end that takes a road that does not turn back on itself. -/

namespace Roadworks

open Vec

/-! ## Limits that are no numbers -/

section

variable {α : Type} [Scalar α] {limit : α}

/-- A limit that is not a number counts as one. -/
theorem Frame.miter_of_isNaN (h : Scalar.isNaN limit = true) (a u : Vec α) :
    miter a u limit = miter a u 1.0 := by
  have hone : Scalar.max (1.0 : α) 1.0 = 1.0 := by
    rw [Scalar.max, ite_self, ite_self]
  have hlimit : Scalar.max limit 1.0 = 1.0 := if_pos h
  rw [miter, miter, hone, hlimit]

theorem Polyline.frames_of_isNaN (h : Scalar.isNaN limit = true) (p : Polyline α)
    (arrival departure : Option (Vec α)) :
    p.frames arrival departure limit = p.frames arrival departure 1.0 := by
  simp only [frames, Frame.miter_of_isNaN h]

theorem BuildOptions.build_of_isNaN {o : BuildOptions α} (h : Scalar.isNaN o.miterLimit = true)
    (n : Network α) (resolver : StyleResolver α) :
    o.build n resolver = { o with miterLimit := 1.0 }.build n resolver := by
  have hroad (styles : List (Resolved α)) (patches : List (SizedPatch α)) (e : Edge α) (i : Nat) :
      RoadSurface.ofEdge? o n styles patches e i =
        RoadSurface.ofEdge? { o with miterLimit := 1.0 } n styles patches e i := by
    simp only [RoadSurface.ofEdge?, Polyline.frames_of_isNaN h]
    rfl
  simp only [build, surfaces, hroad]

end

/-! ## Ends of roads -/

/-- The point of the plane below a vertex. -/
def Vertex.ground (q : Vertex ℝ) : Vec ℝ := ⟨q.x, q.y⟩

/-- At an end of a road in direction `u`, what lies farther left in the section lies farther left of
the road, and every band has its left corner on the left. -/
structure RoadSurface.KeepsSideAt (s : RoadSurface ℝ) (sweep : SweepPath ℝ) (first : Bool)
    (u : Vec ℝ) : Prop where
  vertexAt_left : ∀ offset offset' lift, offset < offset' → ∃ q q',
    sweep.vertexAt first offset lift = some q ∧ sweep.vertexAt first offset' lift = some q' ∧
      0 < (q'.ground - q.ground).dot u.rot90
  cornersAt_left : ∀ y ∈ s.surfaces, ∃ l r, y.mesh.cornersAt first = some (l, r) ∧
    0 < (l.ground - r.ground).dot u.rot90

namespace SweepPath

/-- How the section lies at an end of a straight road. -/
noncomputable def frameAt (first : Bool) (u : Vec ℝ) (arrival departure : Option (Vec ℝ))
    (limit : ℝ) : Frame ℝ :=
  if first then .miter (arrival.getD u) u limit else .miter u (departure.getD u) limit

theorem vertexAt_straight (v w : Node ℝ) (s t : ℝ) (arrival departure : Option (Vec ℝ))
    (limit : ℝ) (first : Bool) : ∃ p z, ∀ offset lift,
    let f := frameAt first (w.position - v.position).unit arrival departure limit
    (straight v w s t arrival departure limit).vertexAt first offset lift =
      some ((p + f.normal * (offset * f.scale)).lift (z + lift)) := by
  cases first with
  | true | false => exact ⟨_, _, fun _ _ => rfl⟩

end SweepPath

theorem Frame.dot_ground_sub (f : Frame ℝ) (p n : Vec ℝ) (x x' z z' : ℝ) :
    (((p + f.normal * (x' * f.scale)).lift z').ground -
      ((p + f.normal * (x * f.scale)).lift z).ground).dot n =
        (x' - x) * (f.scale * f.normal.dot n) := by
  simp only [Vertex.ground, Vec.lift, Vertex.rounded, Scalar.toSingle_eq, dot, sub_x, sub_y, add_x,
    add_y, mul_x, mul_y]
  ring

/-- The bands of every road fill its width. -/
theorem Resolved.tile (resolver : StyleResolver ℝ) (e : Edge ℝ) :
    let c := (ofEdge resolver e).crossSection
    Band.Tile (c.width / 2) c.bands (-(c.width / 2)) := by
  obtain ⟨p, hfault, hstyle⟩ := exists_eq_ofProfile resolver e
  rw [hstyle]
  exact CrossSection.tile_ofProfile hfault

/-- A section whose normal has a share to the left of the road keeps its sides. -/
theorem RoadSurface.IsSwept.keepsSideAt {resolver : StyleResolver ℝ} {e : Edge ℝ}
    {s : RoadSurface ℝ} {sweep : SweepPath ℝ} (hswept : s.IsSwept (.ofEdge resolver e) sweep)
    (hlength : ∀ offset lift, (sweep.edge offset lift).length = 2) {first : Bool} {f : Frame ℝ}
    {p u : Vec ℝ} {z : ℝ} (hvertex : ∀ offset lift, sweep.vertexAt first offset lift =
      some ((p + f.normal * (offset * f.scale)).lift (z + lift)))
    (hpos : 0 < f.scale * f.normal.dot u.rot90) : s.KeepsSideAt sweep first u where
  vertexAt_left offset offset' lift hlt := by
    refine ⟨_, _, hvertex offset lift, hvertex offset' lift, ?_⟩
    rw [f.dot_ground_sub]
    exact mul_pos (sub_pos.mpr hlt) hpos
  cornersAt_left y hy := by
    rw [hswept.surfaces_eq] at hy
    obtain ⟨b, hb, rfl⟩ := List.mem_map.mp hy
    refine ⟨_, _, cornersAt_bandSurface hlength (hvertex _ _) (hvertex _ _), ?_⟩
    rw [f.dot_ground_sub]
    exact mul_pos (sub_pos.mpr ((Resolved.tile resolver e).bounds.2 b hb).2.1) hpos

theorem Network.norm_of_passJoin {n : Network ℝ} {k i : Nat} {d : Vec ℝ}
    (h : RoadSurface.passJoin n k i = some d) : d.norm = 1 := by
  rw [RoadSurface.passJoin] at h
  obtain ⟨_, hjoin⟩ := (Option.ite_none_right_eq_some ..).mp h
  simp only [Option.bind_eq_bind, Option.bind_eq_some_iff] at hjoin
  obtain ⟨_, _, _, _, happroach⟩ := hjoin
  exact norm_of_approach happroach

namespace RoadSurface.IsBuilt

variable {o : BuildOptions ℝ} {n : Network ℝ} {resolver : StyleResolver ℝ} {s : RoadSurface ℝ}
  {e : Edge ℝ} {v w : Node ℝ} {sweep : SweepPath ℝ}

/-- The way before a road has a direction, be it that of another road or of itself. -/
theorem norm_arriving (hb : s.IsBuilt o n resolver e v w sweep) :
    (((passJoin n e.tail s.segment).map (- ·)).getD (w.position - v.position).unit).norm = 1 := by
  refine Polyline.norm_getD ?_ hb.norm_unit
  intro d hd
  obtain ⟨d', hd', rfl⟩ := Option.map_eq_some_iff.mp hd
  rw [norm_neg, Network.norm_of_passJoin hd']

theorem norm_leaving (hb : s.IsBuilt o n resolver e v w sweep) :
    ((passJoin n e.head s.segment).getD (w.position - v.position).unit).norm = 1 :=
  Polyline.norm_getD (fun _ hd => Network.norm_of_passJoin hd) hb.norm_unit

/-- An end keeps its sides if its mitre does. -/
theorem keepsSideAt (h : n.validate = .ok ()) (hb : s.IsBuilt o n resolver e v w sweep)
    {first : Bool} {a d : Vec ℝ} (ha : a.norm = 1) (hd : d.norm = 1)
    (hframe : SweepPath.frameAt first (w.position - v.position).unit
      ((passJoin n e.tail s.segment).map (- ·)) (passJoin n e.head s.segment) o.miterLimit =
        .miter a d o.miterLimit)
    (hkeeps : (Frame.miter a d o.miterLimit).Keeps (w.position - v.position).unit o.miterLimit) :
    s.KeepsSideAt sweep first (w.position - v.position).unit := by
  have hlength := BuildOptions.length_edge_sweep h hb.edge_eq hb.sweep_eq
  have hscale := Frame.scale_miter_bounds ha hd o.miterLimit
  obtain ⟨_, _, hstraight⟩ := hb.sweep_eq_straight
  obtain ⟨p, z, hvertex⟩ := SweepPath.vertexAt_straight v w
    (max 0 (trim (n.patches resolver) e.tail) / v.position.dist w.position)
    (max 0 (trim (n.patches resolver) e.head) / v.position.dist w.position)
    ((passJoin n e.tail s.segment).map (- ·)) (passJoin n e.head s.segment) o.miterLimit first
  rw [← hstraight, hframe] at hvertex
  exact hb.isSwept.keepsSideAt hlength hvertex
    (mul_pos (one_pos.trans_le hscale.1) hkeeps.dot_pos)

theorem keepsSideAt_first (h : n.validate = .ok ()) (hb : s.IsBuilt o n resolver e v w sweep) :
    s.KeepsSideAt sweep true (w.position - v.position).unit :=
  hb.keepsSideAt h hb.norm_arriving hb.norm_unit rfl
    (Frame.keeps_leaving hb.norm_arriving hb.norm_unit o.miterLimit)

theorem keepsSideAt_last (h : n.validate = .ok ()) (hb : s.IsBuilt o n resolver e v w sweep)
    (hturn : ∀ d, passJoin n e.head s.segment = some d →
      1e-12 ≤ ((w.position - v.position).unit + d).norm2) :
    s.KeepsSideAt sweep false (w.position - v.position).unit := by
  refine hb.keepsSideAt h hb.norm_unit hb.norm_leaving rfl
    (Frame.keeps_arriving hb.norm_unit hb.norm_leaving ?_ o.miterLimit)
  cases hgoes : passJoin n e.head s.segment with
  | none => exact (norm2_add_self hb.norm_unit).symm ▸ by norm_num
  | some d => exact hturn d hgoes

end RoadSurface.IsBuilt

/-- Offsets keep their side and width at every vertex of a path, up to where it turns back, and so
they do at both ends of every road, up to one that ends where the other road of a bend leaves the
way it came. A limit that is not a number counts as one in any arithmetic. -/
theorem offsets_keep_side :
    (∀ (points : List (Vec ℝ)) (arrival departure : Option (Vec ℝ)) (limit : ℝ),
      (Polyline.ofPoints points).isDegenerate = false → (∀ d ∈ arrival, d.norm = 1) →
      (∀ d ∈ departure, d.norm = 1) →
      (Polyline.ofPoints points).KeepsSide arrival departure limit) ∧
    (∀ (n : Network ℝ) (b : Builder ℝ) (resolver : StyleResolver ℝ), n.validate = .ok () →
      ∃ g, (b.build n resolver).2 = .ok g ∧ ∀ s ∈ g.roads, ∃ e v w sweep,
        s.IsBuilt b.options n resolver e v w sweep ∧
        s.KeepsSideAt sweep true (w.position - v.position).unit ∧
        ((∀ d, RoadSurface.passJoin n e.head s.segment = some d →
            1e-12 ≤ ((w.position - v.position).unit + d).norm2) →
          s.KeepsSideAt sweep false (w.position - v.position).unit)) ∧
    (∀ (β : Type) [Scalar β] (p : Polyline β) (arrival departure : Option (Vec β)) (limit : β),
      Scalar.isNaN limit = true →
        p.frames arrival departure limit = p.frames arrival departure 1.0) ∧
    ∀ (β : Type) [Scalar β] (o : BuildOptions β) (n : Network β) (resolver : StyleResolver β),
      Scalar.isNaN o.miterLimit = true →
        o.build n resolver = { o with miterLimit := 1.0 }.build n resolver := by
  refine ⟨?_, ?_, ?_, ?_⟩
  · intro points arrival departure limit hlong harrival hdeparture
    exact Polyline.keepsSide hlong harrival hdeparture limit
  · intro n b resolver h
    obtain ⟨g, hg, hroads⟩ := b.exists_isBuilt resolver h
    refine ⟨g, hg, fun s hs => ?_⟩
    obtain ⟨e, v, w, sweep, hb⟩ := hroads s hs
    exact ⟨e, v, w, sweep, hb, hb.keepsSideAt_first h, hb.keepsSideAt_last h⟩
  · intro β _ p arrival departure limit hnan
    exact p.frames_of_isNaN hnan arrival departure
  · intro β _ o n resolver hnan
    exact BuildOptions.build_of_isNaN hnan n resolver

theorem offsets_keep_side_corner :
    (Polyline.ofPoints [(⟨0, 0⟩ : Vec ℝ), ⟨1, 0⟩, ⟨1, 1⟩]).isDegenerate = false ∧
    (Polyline.ofPoints [(⟨0, 0⟩ : Vec ℝ), ⟨1, 0⟩, ⟨1, 1⟩]).KeepsSide (some ⟨0, 1⟩) none (-2) ∧
    Network.turning.validate = .ok () ∧
    (∃ g, ((Builder.new .default).build Network.turning fun _ => none).2 = .ok g ∧
      ∀ s ∈ g.roads, ∃ u sweep, s.KeepsSideAt sweep true u) ∧
    Scalar.isNaN (0.0 / 0.0 : Float) = true ∧
    (Polyline.line ⟨0.0, 0.0⟩ ⟨1.0, 0.0⟩).frames none none (0.0 / 0.0 : Float) =
      (Polyline.line ⟨0.0, 0.0⟩ ⟨1.0, 0.0⟩).frames none none 1.0 := by
  have hpoints : Polyline.ofPoints [(⟨0, 0⟩ : Vec ℝ), ⟨1, 0⟩, ⟨1, 1⟩] =
      ⟨[⟨0, 0⟩, ⟨1, 0⟩, ⟨1, 1⟩]⟩ := by
    refine Polyline.ofPoints_of_isChain ?_
    norm_num [dist_eq, Polyline.vertexGap]
  have hlong : (Polyline.ofPoints [(⟨0, 0⟩ : Vec ℝ), ⟨1, 0⟩, ⟨1, 1⟩]).isDegenerate = false := by
    rw [hpoints]
    rfl
  have hup : (⟨0, 1⟩ : Vec ℝ).norm = 1 := by
    norm_num [norm_eq]
  have harrival : ∀ d ∈ some (⟨0, 1⟩ : Vec ℝ), d.norm = 1 := by
    rintro d ⟨⟩
    exact hup
  obtain ⟨g, hg, hroads⟩ := offsets_keep_side.2.1 Network.turning (.new .default) (fun _ => none)
    Network.validate_turning
  have hnan : Scalar.isNaN (0.0 / 0.0 : Float) = true := by decide
  refine ⟨hlong, offsets_keep_side.1 _ _ _ _ hlong harrival (by simp), Network.validate_turning,
    ⟨g, hg, fun s hs => ?_⟩, hnan, offsets_keep_side.2.2.1 Float _ _ _ _ hnan⟩
  obtain ⟨e, v, w, sweep, _, hfirst, _⟩ := hroads s hs
  exact ⟨_, sweep, hfirst⟩

end Roadworks
