import Mathlib.Analysis.SpecialFunctions.Complex.Arg
import Roadworks.Proofs.Exact.Widths
import Roadworks.Proofs.Surface.Meshes
/-! # Bands tile the cross-section

The strips of a road read the same from both sides up to the odd lane: raised ones on the outside,
then the level ones. So their bands fill the width exactly, and the curbs stand clear of the middle
with their inner edges to the carriageway. -/

namespace Roadworks

/-! ## Strips side by side -/

namespace Band

variable {left right : ℝ} {bands : List (Band ℝ)} {b : Band ℝ}

/-- Bands lie side by side from one offset to another, and each of them has a width. -/
def Tile : ℝ → List (Band ℝ) → ℝ → Prop
  | left, [], right => left = right
  | left, b :: bands, right => b.left = left ∧ b.right < b.left ∧ Tile b.right bands right

/-- The band at the opposite offsets. -/
noncomputable def mirror (b : Band ℝ) : Band ℝ := ⟨b.kind, -b.right, -b.left⟩

/-- The width of all strips together. -/
noncomputable def extent (l : List (BandKind × ℝ)) : ℝ := (l.map (·.2)).sum

theorem extent_cons (s : BandKind × ℝ) (l : List (BandKind × ℝ)) :
    extent (s :: l) = s.2 + extent l := rfl

theorem extent_append (l l' : List (BandKind × ℝ)) : extent (l ++ l') = extent l + extent l' := by
  rw [extent, List.map_append, List.sum_append, extent, extent]

theorem extent_reverse (l : List (BandKind × ℝ)) : extent l.reverse = extent l := by
  rw [extent, List.map_reverse, List.sum_reverse, extent]

theorem layOut_append (left : ℝ) (l l' : List (BandKind × ℝ)) :
    layOut left (l ++ l') = layOut left l ++ layOut (left - extent l) l' := by
  induction l generalizing left with
  | nil => simp [layOut, extent]
  | cons strip l ih =>
      simp only [List.cons_append, layOut, ih, extent_cons, sub_sub]

/-- Strips that are laid out in the opposite order from the other end are mirrored. -/
theorem layOut_reverse (left : ℝ) (l : List (BandKind × ℝ)) :
    layOut (extent l - left) l.reverse = (layOut left l).reverse.map mirror := by
  induction l generalizing left with
  | nil => rfl
  | cons strip l ih =>
      have hstart : strip.2 + extent l - left = extent l - (left - strip.2) := by
        ring
      have hlast : extent l - (left - strip.2) - extent l = -(left - strip.2) := by
        ring
      rw [extent_cons, hstart, List.reverse_cons, layOut_append, ih, extent_reverse, hlast]
      simp [layOut, mirror]

theorem tile_layOut (left : ℝ) {l : List (BandKind × ℝ)} (h : ∀ s ∈ l, 0 < s.2) :
    Tile left (layOut left l) (left - extent l) := by
  induction l generalizing left with
  | nil => exact (sub_zero left).symm
  | cons strip l ih =>
      refine ⟨rfl, sub_lt_self left (h strip (by simp)), ?_⟩
      rw [extent_cons, ← sub_sub]
      exact ih (left - strip.2) fun s hs => h s (by simp [hs])

/-- Every band lies between the ends of what is tiled. -/
theorem Tile.bounds (h : Tile left bands right) :
    right ≤ left ∧ ∀ b ∈ bands, right ≤ b.right ∧ b.right < b.left ∧ b.left ≤ left := by
  induction bands generalizing left with
  | nil =>
      refine ⟨h.ge, ?_⟩
      simp
  | cons c bands ih =>
      obtain ⟨rfl, hwide, htile⟩ := h
      obtain ⟨hrest, hbands⟩ := ih htile
      refine ⟨hrest.trans hwide.le, ?_⟩
      intro b hb
      rcases List.mem_cons.mp hb with rfl | hb
      · exact ⟨hrest, hwide, le_rfl⟩
      · obtain ⟨hlow, hw, hhigh⟩ := hbands b hb
        exact ⟨hlow, hw, hhigh.trans hwide.le⟩

theorem mem_of_mem_layOut {left : ℝ} {l : List (BandKind × ℝ)} (h : b ∈ layOut left l) :
    (b.kind, b.width) ∈ l := by
  induction l generalizing left with
  | nil => cases h
  | cons strip l ih =>
      rcases List.mem_cons.mp h with rfl | h
      · rw [width, sub_sub_cancel]
        exact List.mem_cons_self ..
      · exact List.mem_cons_of_mem _ (ih h)

/-! ## Inner and outer edges -/

theorem reach_eq (x : ℝ) : reach x = |x| := by
  rw [reach, decimal_zero]
  split
  · next h => exact (abs_of_neg h).symm
  · next h => exact (abs_of_nonneg (not_lt.mp h)).symm

theorem edges_of_pos (h : 0 < b.right) (hwide : b.right < b.left) :
    b.outer = b.left ∧ b.inner = b.right := by
  have hreach : reach b.right ≤ reach b.left := by
    rw [reach_eq, reach_eq, abs_of_pos h, abs_of_pos (h.trans hwide)]
    exact hwide.le
  rw [outer, inner, if_pos hreach, if_pos hreach]
  exact ⟨rfl, rfl⟩

theorem edges_of_neg (h : b.left < 0) (hwide : b.right < b.left) :
    b.outer = b.right ∧ b.inner = b.left := by
  have hreach : ¬ reach b.right ≤ reach b.left := by
    rw [reach_eq, reach_eq, abs_of_neg h, abs_of_neg (hwide.trans h), neg_le_neg_iff, not_le]
    exact hwide
  rw [outer, inner, if_neg hreach, if_neg hreach]
  exact ⟨rfl, rfl⟩

end Band

/-! ## Faces -/

/-- The direction from one side of the road to its middle, along a piece of it. -/
noncomputable def Piece.inward (piece : Piece ℝ) (onLeft : Bool) : Vec ℝ :=
  piece.direction.rot90 * (if onLeft then -1 else 1 : ℝ)

namespace SweepPath

variable {onLeft : Bool} {points : List (Vec ℝ)} {bottom top : List (Vertex ℝ)} {m : Mesh ℝ}

theorem mem_positions_wall {q : Vertex ℝ} (h : q ∈ (wall onLeft points bottom top m).positions) :
    q ∈ m.positions ∨ q ∈ bottom ∨ q ∈ top := by
  fun_induction wall onLeft points bottom top m with
  | case1 p p' ps b b' bs t t' ts m n normal m' ih =>
      have hstart : q ∈ m'.positions → q ∈ m.positions ∨ q ∈ b :: b' :: bs ∨ q ∈ t :: t' :: ts := by
        intro hq
        cases onLeft <;> simp [m', Mesh.pushQuad] at hq ⊢ <;> tauto
      rcases ih h with hq | hq | hq
      · exact hstart hq
      · exact .inr (.inl (List.mem_cons_of_mem _ hq))
      · exact .inr (.inr (List.mem_cons_of_mem _ hq))
  | case2 => exact .inl h

/-- A wall has one quadrilateral for every piece, and all of them look inward. -/
theorem normals_wall (s : ℝ) (hbottom : bottom.length = points.length)
    (htop : top.length = points.length) :
    (wall onLeft points bottom top m).normals =
      m.normals ++ (Polyline.piecesFrom s points).flatMap fun piece =>
        List.replicate 4 ((piece.inward onLeft).lift 0) := by
  fun_induction Polyline.piecesFrom s points generalizing bottom top m with
  | case1 => simp [wall]
  | case2 => simp [wall]
  | case3 s p p' ps ih =>
      obtain ⟨b, bs, rfl⟩ := List.exists_cons_of_length_eq_add_one hbottom
      obtain ⟨t, ts, rfl⟩ := List.exists_cons_of_length_eq_add_one htop
      simp only [List.length_cons, Nat.add_right_cancel_iff] at hbottom htop
      obtain ⟨b', bs, rfl⟩ := List.exists_cons_of_length_eq_add_one hbottom
      obtain ⟨t', ts, rfl⟩ := List.exists_cons_of_length_eq_add_one htop
      have hside : (if onLeft then -1.0 else 1.0 : ℝ) = if onLeft then -1 else 1 := by
        split
        · norm_num
        · exact decimal_one
      have hnormal : ((p' - p).unit.rot90 * (if onLeft then -1.0 else 1.0 : ℝ)) =
          (⟨⟨s, s + p.dist p'⟩, p, p'⟩ : Piece ℝ).inward onLeft := by
        rw [hside]
        rfl
      rw [wall, ih hbottom htop, hnormal, decimal_zero]
      cases onLeft <;> simp [Mesh.pushQuad, List.replicate, Vec.lift, Vertex.rounded]

theorem mem_positions_face {sweep : SweepPath ℝ} {b : Band ℝ} {height : ℝ} {q : Vertex ℝ}
    (h : q ∈ (sweep.face b height).positions) :
    q ∈ sweep.edge b.inner 0 ∨ q ∈ sweep.edge b.inner height := by
  rw [face, decimal_zero] at h
  rcases mem_positions_wall h with hq | hq
  · cases hq
  · exact hq

theorem length_edge {α : Type} [Scalar α] {sweep : SweepPath α}
    (hframes : sweep.frames.length = sweep.path.points.length)
    (helevations : sweep.elevations.length = sweep.path.points.length) (offset lift : α) :
    (sweep.edge offset lift).length = sweep.path.points.length := by
  simp [edge, Polyline.offsetPoints, hframes, helevations]

/-- A face has one quadrilateral for every piece of its path, and they look inward. -/
theorem normals_face {sweep : SweepPath ℝ}
    (hframes : sweep.frames.length = sweep.path.points.length)
    (helevations : sweep.elevations.length = sweep.path.points.length) (b : Band ℝ) (height : ℝ) :
    (sweep.face b height).normals = sweep.path.pieces.flatMap fun piece =>
      List.replicate 4 ((piece.inward (decide (0 ≤ b.inner))).lift 0) := by
  have hlength := length_edge hframes helevations
  rw [face, decimal_zero, normals_wall 0 (hlength _ _) (hlength _ _), Polyline.pieces, decimal_zero]
  rfl

end SweepPath

/-! ## Strips of a style -/

namespace CrossSection

variable {p : StyleProfile ℝ}

/-- The strips on the outside that are raised, from the outside in. -/
noncomputable def raisedStrips (p : StyleProfile ℝ) : List (BandKind × ℝ) :=
  match p.curb with
  | none => []
  | some c => (if 0 < c.sidewalkWidth then [(.sidewalk, c.sidewalkWidth)] else []) ++
      [(.curb, c.width)]

/-- The strips between the curbs. -/
noncomputable def levelStrips (p : StyleProfile ℝ) : List (BandKind × ℝ) :=
  let shoulder : List (BandKind × ℝ) := p.shoulderWidth.toList.map fun w => (.shoulder, w)
  shoulder ++ List.replicate (leftLanes p) (.lane, p.laneWidth) ++
    p.medianWidth.toList.map (fun w => (.median, w)) ++
    List.replicate (p.laneCount.toNat - leftLanes p) (.lane, p.laneWidth) ++ shoulder

theorem margin_eq (p : StyleProfile ℝ) :
    margin p = raisedStrips p ++ p.shoulderWidth.toList.map fun w => (.shoulder, w) := by
  simp only [margin, raisedStrips, decimal_zero]
  cases p.curb <;> rfl

theorem strips_eq (p : StyleProfile ℝ) :
    strips p = raisedStrips p ++ levelStrips p ++ (raisedStrips p).reverse := by
  have hshoulder : (p.shoulderWidth.toList.map fun w => (BandKind.shoulder, w)).reverse =
      p.shoulderWidth.toList.map fun w => (.shoulder, w) := by
    cases p.shoulderWidth <;> rfl
  simp [strips, levelStrips, margin_eq, hshoulder]

theorem isRaised_of_mem_raisedStrips {s : BandKind × ℝ} (h : s ∈ raisedStrips p) :
    s.1.isRaised = true := by
  unfold raisedStrips at h
  cases hc : p.curb with
  | none =>
      rw [hc] at h
      cases h
  | some c =>
      rw [hc] at h
      rcases List.mem_append.mp h with h | h
      · split at h
        · rw [List.mem_singleton.mp h]
          rfl
        · cases h
      · rw [List.mem_singleton.mp h]
        rfl

theorem isRaised_of_mem_levelStrips {s : BandKind × ℝ} (h : s ∈ levelStrips p) :
    s.1.isRaised = false := by
  simp only [levelStrips, List.mem_append, List.mem_map] at h
  rcases h with (((⟨w, _, rfl⟩ | hs) | ⟨w, _, rfl⟩) | hs) | ⟨w, _, rfl⟩
  · rfl
  · rw [List.eq_of_mem_replicate hs]
    rfl
  · rfl
  · rw [List.eq_of_mem_replicate hs]
    rfl
  · rfl

/-- With as many lanes to the left as to the right, the level strips read the same backwards. -/
theorem reverse_levelStrips (h : Even p.laneCount.toNat) :
    (levelStrips p).reverse = levelStrips p := by
  have hright : p.laneCount.toNat - leftLanes p = leftLanes p := by
    rw [leftLanes]
    obtain ⟨k, hk⟩ := h
    omega
  rw [levelStrips, hright]
  cases p.shoulderWidth <;> cases p.medianWidth <;> simp

/-! ## Bands of a style -/

theorem width_ofProfile (p : StyleProfile ℝ) : (ofProfile p).width = Band.extent (strips p) :=
  Network.sum_eq _

theorem bands_eq_layOut (p : StyleProfile ℝ) :
    (ofProfile p).bands = Band.layOut ((ofProfile p).width / 2) (strips p) := by
  have hstart : 0.5 * (ofProfile p).width = (ofProfile p).width / 2 := by
    ring
  rw [← hstart]
  rfl

/-- How far the level bands reach to both sides. -/
noncomputable def levelReach (p : StyleProfile ℝ) : ℝ := 0.5 * Band.extent (levelStrips p)

theorem half_width_eq (p : StyleProfile ℝ) :
    (ofProfile p).width / 2 = Band.extent (raisedStrips p) + levelReach p := by
  rw [width_ofProfile, strips_eq, Band.extent_append, Band.extent_append, Band.extent_reverse,
    levelReach]
  ring

/-- The bands of the right curb mirror those of the left one, with the level bands between them. -/
theorem bands_ofProfile (p : StyleProfile ℝ) :
    let raised := Band.layOut ((ofProfile p).width / 2) (raisedStrips p)
    (ofProfile p).bands = raised ++ Band.layOut (levelReach p) (levelStrips p) ++
      raised.reverse.map Band.mirror := by
  have hhalf := half_width_eq p
  have hlevel : (ofProfile p).width / 2 - Band.extent (raisedStrips p) = levelReach p := by
    linarith
  have hright : (ofProfile p).width / 2 - Band.extent (raisedStrips p ++ levelStrips p) =
      Band.extent (raisedStrips p) - (ofProfile p).width / 2 := by
    rw [Band.extent_append, hhalf, levelReach]
    ring
  rw [bands_eq_layOut, strips_eq, Band.layOut_append, Band.layOut_append, hlevel, hright,
    Band.layOut_reverse]

theorem mem_bands_iff {b : Band ℝ} : b ∈ (ofProfile p).bands ↔
    let raised := Band.layOut ((ofProfile p).width / 2) (raisedStrips p)
    b ∈ raised ∨ b ∈ Band.layOut (levelReach p) (levelStrips p) ∨
      ∃ c ∈ raised, c.mirror = b := by
  rw [bands_ofProfile]
  simp

end CrossSection

/-! ## The tiling -/

/-- How wide the bands of a kind are in a style that has them. -/
def StyleProfile.widthOf? (p : StyleProfile ℝ) : BandKind → Option ℝ
  | .sidewalk => p.curb.map (·.sidewalkWidth)
  | .curb => p.curb.map (·.width)
  | .shoulder => p.shoulderWidth
  | .lane => some p.laneWidth
  | .median => p.medianWidth

/-- A raised band stands on one side of the level ones: its inner edge is that toward them, and so
is its face. -/
structure Band.IsBeside (b : Band ℝ) (bands : List (Band ℝ)) (onLeft : Bool) : Prop where
  outer_eq : b.outer = if onLeft then b.left else b.right
  inner_eq : b.inner = if onLeft then b.right else b.left
  inner_sign : if onLeft then 0 < b.inner else b.inner < 0
  /-- No level band reaches beyond the inner edge. -/
  inner_bound : ∀ c ∈ bands, c.kind.isRaised = false →
    if onLeft then c.left ≤ b.inner else b.inner ≤ c.right
  positions_face : ∀ (s : SweepPath ℝ) (height : ℝ), ∀ q ∈ (s.face b height).positions,
    q ∈ s.edge b.inner 0 ∨ q ∈ s.edge b.inner height
  /-- The face has one quadrilateral for every piece of a path, and it looks to the level bands. -/
  normals_face : ∀ (s : SweepPath ℝ) (height : ℝ), s.frames.length = s.path.points.length →
    s.elevations.length = s.path.points.length →
    (s.face b height).normals = s.path.pieces.flatMap fun piece =>
      List.replicate 4 ((piece.inward onLeft).lift 0)

namespace Band

variable {b : Band ℝ} {bands : List (Band ℝ)}

theorem isBeside_left (hpos : 0 < b.right) (hwide : b.right < b.left)
    (hlevel : ∀ c ∈ bands, c.kind.isRaised = false → c.left ≤ b.right) : b.IsBeside bands true := by
  obtain ⟨houter, hinner⟩ := edges_of_pos hpos hwide
  have hside : decide (0 ≤ b.inner) = true := by
    rw [hinner, decide_eq_true hpos.le]
  refine ⟨houter, hinner, ?_, ?_, fun s height q hq => SweepPath.mem_positions_face hq, ?_⟩
  · rwa [if_pos rfl, hinner]
  · rwa [hinner]
  · intro s height hframes helevations
    rw [SweepPath.normals_face hframes helevations, hside]

theorem isBeside_right (hneg : b.left < 0) (hwide : b.right < b.left)
    (hlevel : ∀ c ∈ bands, c.kind.isRaised = false → b.left ≤ c.right) :
    b.IsBeside bands false := by
  obtain ⟨houter, hinner⟩ := edges_of_neg hneg hwide
  have hside : decide (0 ≤ b.inner) = false := by
    rw [hinner, decide_eq_false hneg.not_ge]
  refine ⟨houter, hinner, ?_, ?_, fun s height q hq => SweepPath.mem_positions_face hq, ?_⟩
  · rwa [if_neg Bool.false_ne_true, hinner]
  · rwa [hinner]
  · intro s height hframes helevations
    rw [SweepPath.normals_face hframes helevations, hside]

end Band

/-- The bands of a style fill its width from the left edge to the right one. -/
structure CrossSection.IsTiled (c : CrossSection ℝ) (p : StyleProfile ℝ) : Prop where
  /-- The lanes lie around the median, and what lies outside of them is mirrored. -/
  kinds_eq : ∃ outside : List BandKind, outside.Sublist [.sidewalk, .curb, .shoulder] ∧
    (.sidewalk ∈ outside ↔ ∃ k, p.curb = some k ∧ 0 < k.sidewalkWidth) ∧
    (.curb ∈ outside ↔ ∃ k, p.curb = some k) ∧
    (.shoulder ∈ outside ↔ ∃ w, p.shoulderWidth = some w) ∧
    c.bands.map (·.kind) = outside ++ List.replicate (p.laneCount.toNat / 2) .lane ++
      (p.medianWidth.map fun _ => .median).toList ++
      List.replicate (p.laneCount.toNat - p.laneCount.toNat / 2) .lane ++ outside.reverse
  width_eq : ∀ b ∈ c.bands, p.widthOf? b.kind = some b.width
  tile : Band.Tile (c.width / 2) c.bands (-(c.width / 2))
  mirror_eq : Even p.laneCount.toNat → c.bands.reverse.map Band.mirror = c.bands
  isBeside : ∀ b ∈ c.bands, b.kind.isRaised = true → ∃ onLeft, b.IsBeside c.bands onLeft

namespace CrossSection

variable {p : StyleProfile ℝ}

theorem widthOf?_of_mem_strips {s : BandKind × ℝ} (h : s ∈ strips p) :
    p.widthOf? s.1 = some s.2 := by
  have hraised : ∀ t ∈ raisedStrips p, p.widthOf? t.1 = some t.2 := by
    intro t ht
    unfold raisedStrips at ht
    cases hc : p.curb with
    | none =>
        rw [hc] at ht
        cases ht
    | some c =>
        rw [hc] at ht
        rcases List.mem_append.mp ht with ht | ht
        · split at ht
          · rw [List.mem_singleton.mp ht, StyleProfile.widthOf?, hc, Option.map_some]
          · cases ht
        · rw [List.mem_singleton.mp ht, StyleProfile.widthOf?, hc, Option.map_some]
  have hlevel : ∀ t ∈ levelStrips p, p.widthOf? t.1 = some t.2 := by
    intro t ht
    simp only [levelStrips, List.mem_append, List.mem_map, Option.mem_toList] at ht
    rcases ht with (((⟨w, hw, rfl⟩ | ht) | ⟨w, hw, rfl⟩) | ht) | ⟨w, hw, rfl⟩
    · exact hw
    · rw [List.eq_of_mem_replicate ht]
      rfl
    · exact hw
    · rw [List.eq_of_mem_replicate ht]
      rfl
    · exact hw
  rw [strips_eq] at h
  simp only [List.mem_append, List.mem_reverse] at h
  rcases h with (h | h) | h
  · exact hraised s h
  · exact hlevel s h
  · exact hraised s h

/-- Outside of the lanes lie a sidewalk, a curb and a shoulder, each of them if the style has it. -/
theorem kinds_margin (p : StyleProfile ℝ) :
    ((margin p).map (·.1)).Sublist [.sidewalk, .curb, .shoulder] ∧
    (.sidewalk ∈ (margin p).map (·.1) ↔ ∃ k, p.curb = some k ∧ 0 < k.sidewalkWidth) ∧
    (.curb ∈ (margin p).map (·.1) ↔ ∃ k, p.curb = some k) ∧
    (.shoulder ∈ (margin p).map (·.1) ↔ ∃ w, p.shoulderWidth = some w) := by
  rw [margin_eq, raisedStrips]
  cases p.curb with
  | none => cases p.shoulderWidth <;> simp
  | some k => by_cases hwalk : 0 < k.sidewalkWidth <;> cases p.shoulderWidth <;> simp [hwalk]

theorem kinds_ofProfile {α : Type} [Scalar α] (p : StyleProfile α) :
    (ofProfile p).bands.map (·.kind) = (margin p).map (·.1) ++
      List.replicate (p.laneCount.toNat / 2) .lane ++
      (p.medianWidth.map fun _ => .median).toList ++
      List.replicate (p.laneCount.toNat - p.laneCount.toNat / 2) .lane ++
      ((margin p).map (·.1)).reverse := by
  have hkinds : (ofProfile p).bands.map (·.kind) = (strips p).map (·.1) :=
    Band.map_kind_layOut _ _
  have hmedian : (p.medianWidth.toList.map fun w => (BandKind.median, w)).map (·.1) =
      (p.medianWidth.map fun _ => BandKind.median).toList := by
    cases p.medianWidth <;> rfl
  rw [hkinds, strips]
  simp only [List.map_append, List.map_replicate, List.map_reverse, hmedian, leftLanes]

theorem tile_ofProfile (h : p.fault? = none) :
    Band.Tile ((ofProfile p).width / 2) (ofProfile p).bands (-((ofProfile p).width / 2)) := by
  have hstop : (ofProfile p).width / 2 - Band.extent (strips p) = -((ofProfile p).width / 2) := by
    rw [← width_ofProfile]
    ring
  rw [bands_eq_layOut, ← hstop]
  exact Band.tile_layOut _ (pos_of_mem_strips h)

theorem mirror_bands (h : Even p.laneCount.toNat) :
    (ofProfile p).bands.reverse.map Band.mirror = (ofProfile p).bands := by
  have hstrips : (strips p).reverse = strips p := by
    simp [strips_eq, reverse_levelStrips h]
  have hstart : Band.extent (strips p) - (ofProfile p).width / 2 = (ofProfile p).width / 2 := by
    rw [← width_ofProfile]
    ring
  rw [bands_eq_layOut, ← Band.layOut_reverse, hstrips, hstart]

/-! ## Curbs -/

theorem levelReach_pos (h : p.fault? = none) : 0 < levelReach p := by
  have hpos : ∀ w ∈ (levelStrips p).map (·.2), 0 < w := by
    intro w hw
    obtain ⟨s, hs, rfl⟩ := List.mem_map.mp hw
    exact pos_of_mem_strips h s (by simp [strips_eq, hs])
  have hlanes := rightLanes_ne_zero (StyleProfile.pos_of_fault?_eq_none h).1
  have hsome : (levelStrips p).map (·.2) ≠ [] := by
    simp [levelStrips, hlanes]
  exact mul_pos (by norm_num) (List.sum_pos _ hpos hsome)

theorem bounds_raised (h : p.fault? = none) {b : Band ℝ}
    (hb : b ∈ Band.layOut ((ofProfile p).width / 2) (raisedStrips p)) :
    levelReach p ≤ b.right ∧ b.right < b.left ∧ b.kind.isRaised = true := by
  have hpos : ∀ s ∈ raisedStrips p, 0 < s.2 := fun s hs =>
    pos_of_mem_strips h s (by simp [strips_eq, hs])
  have htile := Band.tile_layOut ((ofProfile p).width / 2) hpos
  obtain ⟨hright, hwide, _⟩ := htile.bounds.2 b hb
  rw [half_width_eq, add_sub_cancel_left] at hright
  exact ⟨hright, hwide, isRaised_of_mem_raisedStrips (Band.mem_of_mem_layOut hb)⟩

theorem bounds_level (h : p.fault? = none) {b : Band ℝ} (hb : b ∈ (ofProfile p).bands)
    (hlevel : b.kind.isRaised = false) : -levelReach p ≤ b.right ∧ b.left ≤ levelReach p := by
  have hpos : ∀ s ∈ levelStrips p, 0 < s.2 := fun s hs =>
    pos_of_mem_strips h s (by simp [strips_eq, hs])
  have hstop : levelReach p - Band.extent (levelStrips p) = -levelReach p := by
    rw [levelReach]
    ring
  have htile := Band.tile_layOut (levelReach p) hpos
  rw [hstop] at htile
  rcases mem_bands_iff.mp hb with hleft | hmiddle | ⟨c, hc, rfl⟩
  · exact absurd (hlevel.symm.trans (bounds_raised h hleft).2.2) Bool.false_ne_true
  · obtain ⟨hright, _, hleft⟩ := htile.bounds.2 b hmiddle
    exact ⟨hright, hleft⟩
  · exact absurd (hlevel.symm.trans (bounds_raised h hc).2.2) Bool.false_ne_true

theorem isBeside_of_isRaised (h : p.fault? = none) {b : Band ℝ} (hb : b ∈ (ofProfile p).bands)
    (hraised : b.kind.isRaised = true) : ∃ onLeft, b.IsBeside (ofProfile p).bands onLeft := by
  have hreach := levelReach_pos h
  rcases mem_bands_iff.mp hb with hleft | hlevel | ⟨c, hc, rfl⟩
  · obtain ⟨hinner, hwide, _⟩ := bounds_raised h hleft
    refine ⟨true, Band.isBeside_left (hreach.trans_le hinner) hwide fun c hc hflat => ?_⟩
    exact (bounds_level h hc hflat).2.trans hinner
  · have hflat := isRaised_of_mem_levelStrips (Band.mem_of_mem_layOut hlevel)
    exact absurd (hflat.symm.trans hraised) Bool.false_ne_true
  · obtain ⟨hinner, hwide, _⟩ := bounds_raised h hc
    refine ⟨false, Band.isBeside_right (neg_lt_zero.mpr (hreach.trans_le hinner))
      (neg_lt_neg hwide) fun d hd hflat => ?_⟩
    exact (neg_le_neg hinner).trans (bounds_level h hd hflat).1

/-- The bands of a style that can be built fill its width and mirror each other, up to the odd lane.
Its curbs stand on both sides and face the lanes. -/
theorem isTiled_ofProfile (h : p.fault? = none) : (ofProfile p).IsTiled p where
  kinds_eq := by
    obtain ⟨hsublist, hwalk, hcurb, hshoulder⟩ := kinds_margin p
    exact ⟨_, hsublist, hwalk, hcurb, hshoulder, kinds_ofProfile p⟩
  width_eq b hb := by
    rw [bands_eq_layOut] at hb
    exact widthOf?_of_mem_strips (Band.mem_of_mem_layOut hb)
  tile := tile_ofProfile h
  mirror_eq := mirror_bands
  isBeside _ hb hraised := isBeside_of_isRaised h hb hraised

end CrossSection

/-- Three lanes around a median, with everything beside them that a road can have. -/
noncomputable def StyleProfile.parkway : StyleProfile ℝ :=
  ⟨3, 3.0, some 1.0, some 2.0, .default, some .default⟩

theorem StyleProfile.fault?_parkway : parkway.fault? = none := by
  have hshoulder : isPositive (1.0 : ℝ) = true := isPositive_iff.mpr (by norm_num)
  have hmedian : isPositive (2.0 : ℝ) = true := isPositive_iff.mpr (by norm_num)
  have hlane : isPositive (3.0 : ℝ) = true := isPositive_iff.mpr (by norm_num)
  have hcurb : curbFault? (.default : CurbProfile ℝ) = none := by
    have hwidth : isPositive (0.3 : ℝ) = true := isPositive_iff.mpr (by norm_num)
    have hheight : ¬ (0.15 : ℝ) < 0.0 := by norm_num
    have hwalk : ¬ (2.0 : ℝ) < 0.0 := by norm_num
    simp [curbFault?, CurbProfile.default, Scalar.isFinite, hwidth, hheight, hwalk]
  simp [fault?, parkway, hshoulder, hmedian, hlane, markingFault?_default_real, hcurb]

theorem CrossSection.isTiled_parkway :
    StyleProfile.parkway.fault? = none ∧ (ofProfile .parkway).IsTiled .parkway :=
  ⟨StyleProfile.fault?_parkway, isTiled_ofProfile StyleProfile.fault?_parkway⟩

end Roadworks
