import Mathlib.Analysis.SpecialFunctions.Complex.Arg
import Roadworks.Proofs.Exact.Bands
import Roadworks.Proofs.Exact.Joints
import Roadworks.Proofs.Exact.Mitres
/-! # What is left of a road

Whether the patches over its ends leave anything of a road is decided by lengths, but what is left
leads from one computed point to another. Where these are taken for one point, the road is there
and has no surface, and no warning says so. That is a matter of rounding alone. -/

namespace Roadworks

/-! ## Paths that are cut off -/

namespace Polyline

variable {α : Type} [Scalar α] {p q : Polyline α} {start stop : α}

/-- The point where a path is cut off at its beginning. -/
def cutPoint (p : Polyline α) (start : α) : Vec α := p.sample (Scalar.max 0.0 start)

/-- The vertices between the cuts, and the point where the path is cut off at its end. -/
def afterCut (p : Polyline α) (start stop : α) : List (Vec α) :=
  let range : Interval α := ⟨Scalar.max 0.0 start, p.length - Scalar.max 0.0 stop⟩
  let interior := (p.points.zip p.lengths).filter fun (_, s) => range.min < s ∧ s < range.max
  interior.map (·.1) ++ [p.sample range.max]

/-- All that is left of a path is taken for one point. -/
def Collapses (p : Polyline α) (start stop : α) : Prop :=
  ∀ v ∈ p.afterCut start stop, (p.cutPoint start).dist v < vertexGap

theorem keepApart_eq_nil_iff {last : Vec α} {points : List (Vec α)} :
    keepApart last points = [] ↔ ∀ v ∈ points, last.dist v < vertexGap := by
  induction points with
  | nil => simp [keepApart]
  | cons v points ih =>
      rw [keepApart, List.forall_mem_cons]
      split
      · next hnear => rw [ih, and_iff_right hnear]
      · next hfar => exact iff_of_false (List.cons_ne_nil _ _) fun h => hfar h.1

theorem isDegenerate_ofPoints_iff {v : Vec α} {points : List (Vec α)} :
    (ofPoints (v :: points)).isDegenerate = true ↔ ∀ w ∈ points, v.dist w < vertexGap := by
  rw [← keepApart_eq_nil_iff, isDegenerate, ofPoints, decide_eq_true_eq, List.length_cons,
    ← List.length_eq_zero_iff]
  omega

/-- What is left of a path is a single vertex exactly where it collapses. -/
theorem isDegenerate_trimmed_iff (h : p.trimmed start stop = some q) :
    q.isDegenerate = true ↔ p.Collapses start stop := by
  obtain ⟨_, heq⟩ := (Option.ite_none_left_eq_some ..).mp h
  rw [← Option.some.inj heq]
  exact isDegenerate_ofPoints_iff

theorem pieces_eq_nil (h : p.isDegenerate = true) : p.pieces = [] := by
  rw [isDegenerate, decide_eq_true_eq] at h
  rw [← List.length_eq_zero_iff, length_pieces]
  omega

theorem frames_eq_nil (h : p.isDegenerate = true) (arrival departure : Option (Vec α))
    (limit : α) : p.frames arrival departure limit = [] := by
  rw [frames, pieces_eq_nil h]
  rfl

end Polyline

/-! ## Surfaces along a path -/

namespace Mesh

variable {α : Type}

theorem triangleCount_le_append (m other : Mesh α) :
    m.triangleCount ≤ (m.append other).triangleCount := by
  rw [triangleCount, triangleCount, append, List.length_append]
  exact Nat.div_le_div_right (Nat.le_add_right _ _)

end Mesh

namespace SweepPath

variable {α : Type} [Scalar α] {s : SweepPath α}

/-- There are two triangles for every piece of a path. -/
theorem triangleCount_strip {left right : List (Vertex α)} (h : left.length = right.length)
    (m : Mesh α) :
    (strip left right m).triangleCount = m.triangleCount + 2 * (left.length - 1) := by
  fun_induction strip left right m with
  | case1 l l' ls r r' rs m ih =>
      rw [ih (by simpa using h), Mesh.triangleCount_pushQuad]
      simp only [List.length_cons]
      omega
  | case2 left right m hshort =>
      have hleft : left.length < 2 := by
        rcases left with _ | ⟨l, _ | ⟨l', ls⟩⟩
        · simp
        · simp
        · rcases right with _ | ⟨r, _ | ⟨r', rs⟩⟩
          · simp at h
          · simp at h
          · exact absurd rfl (hshort l l' ls r r' rs rfl)
      omega

theorem edge_eq_nil (h : s.frames = []) (offset lift : α) : s.edge offset lift = [] := by
  simp [edge, Polyline.offsetPoints, h]

end SweepPath

namespace RoadSurface

variable {α : Type} [Scalar α]

/-- The road has a middle and surfaces. -/
structure IsWhole (s : RoadSurface α) : Prop where
  length_centreline : 2 ≤ s.centreline.length
  triangleCount_surface : ∀ y ∈ s.surfaces, 2 ≤ y.mesh.triangleCount

/-- Nothing is there of the road. -/
structure IsVoid (s : RoadSurface α) : Prop where
  centreline_eq : s.centreline = []
  surface_eq : ∀ y ∈ s.surfaces, y.mesh = .empty
  markings_eq : s.markings = []
  curbLine_eq : ∀ l ∈ s.curbLines, l = []

variable {s : RoadSurface α} {r : Resolved α} {sweep : SweepPath α}

/-- What is swept along a path with a piece has a surface on every band. -/
theorem IsSwept.isWhole {k : Nat} (h : s.IsSwept r sweep) (hk : 2 ≤ k)
    (hlength : ∀ offset lift, (sweep.edge offset lift).length = k) : s.IsWhole where
  length_centreline := by
    rw [h.centreline_eq, hlength]
    exact hk
  triangleCount_surface y hy := by
    rw [h.surfaces_eq] at hy
    obtain ⟨b, _, rfl⟩ := List.mem_map.mp hy
    have hribbon (lift : α) : 2 ≤ (sweep.ribbon b lift).triangleCount := by
      rw [SweepPath.ribbon, SweepPath.triangleCount_strip (by rw [hlength, hlength]), hlength]
      omega
    rw [bandSurface]
    dsimp only
    split
    · exact (hribbon _).trans (Mesh.triangleCount_le_append _ _)
    · exact hribbon _

/-- Nothing is swept along a single point. -/
theorem isVoid_ofPath {o : BuildOptions α} {segment : Nat} {styleClass : String}
    {elevation : Vec α → α} (h : sweep.path.isDegenerate = true) (hframes : sweep.frames = []) :
    (ofPath o segment styleClass r sweep elevation).IsVoid where
  centreline_eq := SweepPath.edge_eq_nil hframes _ _
  surface_eq y hy := by
    obtain ⟨b, _, rfl⟩ := List.mem_map.mp hy
    have hribbon (lift : α) : sweep.ribbon b lift = .empty := by
      rw [SweepPath.ribbon, SweepPath.edge_eq_nil hframes]
      rfl
    have hface (height : α) : sweep.face b height = .empty := by
      simp only [SweepPath.face, SweepPath.edge_eq_nil hframes]
      rcases sweep.path.points with _ | ⟨p, _ | ⟨p', ps⟩⟩ <;> rfl
    rw [bandSurface]
    dsimp only
    split
    · rw [hribbon, hface]
      rfl
    · exact hribbon _
  markings_eq := by
    simp [ofPath, Marking.alongPath, Polyline.pieces_eq_nil h]
  curbLine_eq l hl := by
    obtain ⟨b, _, rfl⟩ := List.mem_map.mp hl
    exact SweepPath.edge_eq_nil hframes _ _

end RoadSurface

/-! ## Roads that were built -/

namespace RoadSurface.IsBuilt

variable {α : Type} [Scalar α] {o : BuildOptions α} {n : Network α} {resolver : StyleResolver α}
  {s : RoadSurface α} {e : Edge α} {v w : Node α} {sweep : SweepPath α}

/-- What a road is swept along. -/
theorem trimmed_eq (h : s.IsBuilt o n resolver e v w sweep) :
    (Polyline.line v.position w.position).trimmed (trim (n.patches resolver) e.tail)
      (trim (n.patches resolver) e.head) = some sweep.path ∧
    (∃ arrival departure, sweep.frames = sweep.path.frames arrival departure o.miterLimit) ∧
    sweep.elevations.length = sweep.path.points.length := by
  have hsweep := h.sweep_eq
  simp only [BuildOptions.sweep?, h.edge_eq, h.tail_eq, h.head_eq, bind, Option.bind_some,
    Option.bind_eq_some_iff] at hsweep
  obtain ⟨path, hpath, hsweep⟩ := hsweep
  cases hsweep
  exact ⟨hpath, ⟨_, _, rfl⟩, List.length_map _⟩

theorem isWhole (h : s.IsBuilt o n resolver e v w sweep)
    (hlong : sweep.path.isDegenerate = false) : s.IsWhole := by
  obtain ⟨_, ⟨arrival, departure, hframes⟩, helevations⟩ := h.trimmed_eq
  have hlength : sweep.frames.length = sweep.path.points.length := by
    rw [hframes, Polyline.length_frames hlong]
  have htwo : 2 ≤ sweep.path.points.length := by
    rw [Polyline.isDegenerate, decide_eq_false_iff_not] at hlong
    omega
  exact h.isSwept.isWhole htwo (SweepPath.length_edge hlength helevations)

theorem isVoid (h : s.IsBuilt o n resolver e v w sweep)
    (hpoint : sweep.path.isDegenerate = true) : s.IsVoid := by
  obtain ⟨_, ⟨arrival, departure, hframes⟩, _⟩ := h.trimmed_eq
  rw [h.surface_eq]
  exact isVoid_ofPath hpoint (hframes.trans (Polyline.frames_eq_nil hpoint ..))

end RoadSurface.IsBuilt

/-- The road is there, or reported as too short. It has surfaces unless what is left of it is taken
for one point, and then there is nothing of it without a report. -/
def Geometry.LeavesRoad {α : Type} [Scalar α] (g : Geometry α) (n : Network α) (i : Nat)
    (e : Edge α) : Prop :=
  ∃ v w, n.nodes[e.tail]? = some v ∧ n.nodes[e.head]? = some w ∧
    let road := Polyline.line v.position w.position
    let r := g.radiusAt e.tail
    let r' := g.radiusAt e.head
    (road.trimmed r r' = none ∧
      g.treatment i = ([], [.segmentTooShort i (v.position.dist w.position)])) ∨
    ∃ s, g.treatment i = ([s], []) ∧ (¬ road.Collapses r r' → s.IsWhole) ∧
      (road.Collapses r r' → s.IsVoid)

theorem BuildOptions.leavesRoad_surfaces {α : Type} [Scalar α] {n : Network α}
    (h : n.validate = .ok ()) (o : BuildOptions α) (resolver : StyleResolver α) {i : Nat}
    {e : Edge α} (he : n.edges[i]? = some e) : (o.surfaces n resolver).LeavesRoad n i e := by
  obtain ⟨htail, hhead, _⟩ := (Network.validate_eq_ok_iff.mp h).1 e (List.mem_of_getElem? he)
  have hv := List.getElem?_eq_getElem htail
  have hw := List.getElem?_eq_getElem hhead
  refine ⟨_, _, hv, hw, ?_⟩
  simp only [radiusAt_surfaces, treatment_surfaces, o.outcome?_eq_sweep? resolver he hv hw]
  cases hsweep : o.sweep? n resolver i with
  | none =>
      refine .inl ⟨?_, rfl⟩
      simp only [sweep?, he, hv, hw, bind, Option.bind_some, Option.bind_eq_none_iff, pure,
        reduceCtorEq, imp_false] at hsweep
      exact Option.eq_none_iff_forall_ne_some.mpr hsweep
  | some sweep =>
      have hbuilt : RoadSurface.IsBuilt (.ofPath o i e.styleClass (Resolved.ofEdge resolver e) sweep
          (RoadSurface.elevationAt n.nodes[e.tail].position n.nodes[e.head].position
            n.nodes[e.tail].elevation n.nodes[e.head].elevation)) o n resolver e n.nodes[e.tail]
          n.nodes[e.head] sweep := ⟨he, hv, hw, hsweep, rfl⟩
      have hcollapse := Polyline.isDegenerate_trimmed_iff hbuilt.trimmed_eq.1
      refine .inr ⟨_, rfl, fun hlong => hbuilt.isWhole ?_, fun hpoint => hbuilt.isVoid ?_⟩
      · rwa [← Bool.not_eq_true, hcollapse]
      · rwa [hcollapse]

/-- Nothing is rounded over the reals, so what is left of a road there is long enough. -/
theorem RoadSurface.IsBuilt.isWhole_real {o : BuildOptions ℝ} {n : Network ℝ}
    {resolver : StyleResolver ℝ} {s : RoadSurface ℝ} {e : Edge ℝ} {v w : Node ℝ}
    {sweep : SweepPath ℝ} (h : s.IsBuilt o n resolver e v w sweep) : s.IsWhole := by
  obtain ⟨_, _, hsweep⟩ := h.sweep_eq_straight
  refine h.isWhole ?_
  rw [hsweep]
  rfl

/-- Every road of a sound network has surfaces, or is reported as too short, unless what is left of
it is taken for one point: a path is trimmed to a single vertex exactly there, and then nothing is
built and nothing reported. In exact arithmetic no road is lost in that way. -/
theorem Builder.build_leaves_roads {α : Type} [Scalar α] (b : Builder α) (n : Network α)
    (resolver : StyleResolver α) (h : n.validate = .ok ()) :
    (∃ g, (b.build n resolver).2 = .ok g ∧
      ∀ i e, n.edges[i]? = some e → g.LeavesRoad n i e) ∧
    (∀ (p q : Polyline α) (start stop : α), p.trimmed start stop = some q →
      (q.isDegenerate = true ↔ p.Collapses start stop)) ∧
    ∀ (b : Builder ℝ) (n : Network ℝ) (resolver : StyleResolver ℝ), n.validate = .ok () →
      ∃ g, (b.build n resolver).2 = .ok g ∧ ∀ s ∈ g.roads, s.IsWhole := by
  refine ⟨?_, fun p q start stop htrimmed => Polyline.isDegenerate_trimmed_iff htrimmed,
    fun b n resolver h => ?_⟩
  · refine ⟨b.options.surfaces n resolver, build_eq_ok_iff.mpr ⟨h, rfl⟩, fun i e he => ?_⟩
    exact BuildOptions.leavesRoad_surfaces h b.options resolver he
  · obtain ⟨g, hg, hroads⟩ := b.exists_isBuilt resolver h
    refine ⟨g, hg, fun s hs => ?_⟩
    obtain ⟨e, v, w, sweep, hb⟩ := hroads s hs
    exact hb.isWhole_real

/-- The roads of a junction, part of a straight road, and the roads of a bend. -/
theorem Builder.build_leaves_roads_tee :
    tee.validate = .ok () ∧ (∃ g, ((new .default).build tee fun _ => none).2 = .ok g ∧
      g.LeavesRoad tee 0 ⟨0, 1, 0.0, "street", 0⟩) ∧
    (∃ q, (Polyline.line (⟨0.0, 0.0⟩ : Vec Float) ⟨20.0, 0.0⟩).trimmed 5.5 1.0 = some q ∧
      (q.isDegenerate = true ↔
        (Polyline.line (⟨0.0, 0.0⟩ : Vec Float) ⟨20.0, 0.0⟩).Collapses 5.5 1.0)) ∧
    Network.turning.validate = .ok () ∧
      ∃ g s, ((new .default).build Network.turning fun _ => none).2 = .ok g ∧ s ∈ g.roads ∧
        s.IsWhole := by
  obtain ⟨⟨g, hg, hroads⟩, htrimmed, hreal⟩ :=
    build_leaves_roads (new .default) tee (fun _ => none) validate_tee
  obtain ⟨q, hq⟩ : ∃ q, (Polyline.line (⟨0.0, 0.0⟩ : Vec Float) ⟨20.0, 0.0⟩).trimmed 5.5 1.0 =
      some q := Option.isSome_iff_exists.mp (by decide +kernel)
  obtain ⟨g', hg', hwhole⟩ := hreal (new .default) Network.turning (fun _ => none)
    Network.validate_turning
  obtain ⟨s, hs, _⟩ := Network.exists_mem_roads_of_build hg' Nat.two_pos
  exact ⟨validate_tee, ⟨g, hg, hroads 0 _ rfl⟩, ⟨q, hq, htrimmed _ q _ _ hq⟩,
    Network.validate_turning, g', s, hg', hs, hwhole s hs⟩

/-- Three roads that meet so far from the origin that the doubles there are sixteen apart. -/
def remote : Network Float :=
  .ofParts "far" 0.01 { JunctionRules.default with intersectionRadius := 10.0 }
    [(⟨1e17, 0.0⟩, 0.0), (⟨100000000000000016.0, 0.0⟩, 0.0),
      (⟨100000000000000016.0, 40.0⟩, 0.0), (⟨100000000000000016.0, -40.0⟩, 0.0)]
    [⟨0, 1, 0.0, "local", 0⟩, ⟨1, 2, 0.0, "local", 1⟩, ⟨1, 3, 0.0, "local", 2⟩] []

theorem validate_remote : remote.validate = .ok () := by
  refine Network.IsCoherent.validate_eq_ok
    ⟨?_, Network.listsRoads_ofParts _ _ _ _ _ _, by decide +kernel⟩
  simp [Network.JoinsNodes, remote, Network.ofParts]

/-- Two and a half metres are left of a road, but both of their ends are rounded to its start. The
road is trimmed to one vertex, and the build ends without a warning and without a surface for it. -/
theorem Builder.build_loses_road :
    remote.validate = .ok () ∧
    (∀ v ∈ remote.nodes, (Scalar.isFinite v.position.x && Scalar.isFinite v.position.y &&
      Scalar.isFinite v.elevation) = true) ∧
    ((Polyline.line (⟨1e17, 0.0⟩ : Vec Float) ⟨100000000000000016.0, 0.0⟩).trimmed 0.0 13.5).map
      (·.isDegenerate) = some true ∧
    ((new .default).build remote fun _ => some .default).1.state = .built ∧
    ∃ g, ((new .default).build remote fun _ => some .default).2 = .ok g ∧ g.warnings = [] ∧
      (g.roads.map fun s => (s.segment, s.centreline.length,
        s.surfaces.map (·.mesh.triangleCount))) = [(0, 0, [0, 0]), (1, 2, [2, 2]), (2, 2, [2, 2])]
    := by
  have hcomplete : (BuildOptions.default.surfaces remote fun _ => some .default).isComplete =
      true := by
    decide +kernel
  refine ⟨validate_remote, by decide +kernel, by decide +kernel, ?_,
    BuildOptions.default.surfaces remote fun _ => some .default,
    build_eq_ok_iff.mpr ⟨validate_remote, rfl⟩, List.isEmpty_iff.mp hcomplete, by decide +kernel⟩
  rw [build_of_ok validate_remote]
  dsimp only [new]
  rw [if_pos hcomplete]

end Roadworks
