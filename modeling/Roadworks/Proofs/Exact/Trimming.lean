import Roadworks.Proofs.Exact.Directions
import Roadworks.Plane.Polyline
/-! # Straight paths over the reals

Points on the way from one point to another are told by the share of the way up to them. A straight
path that is cut back at both ends leads from one such point to another, unless what is left is too
short for two vertices. -/

namespace Roadworks

/-! ## The way between two points -/

namespace Vec

variable {a b : Vec ℝ} {s t : ℝ}

/-- The point after a share of the way from `a` to `b`. -/
noncomputable def between (a b : Vec ℝ) (t : ℝ) : Vec ℝ := a + (b - a) * t

theorem between_zero (a b : Vec ℝ) : between a b 0 = a := by
  ext <;> simp [between]

theorem between_comm (a b : Vec ℝ) (t : ℝ) : between a b t = between b a (1 - t) := by
  ext
  · simp [between]
    ring
  · simp [between]
    ring

theorem between_sub_between (a b : Vec ℝ) (s t : ℝ) :
    between a b t - between a b s = (b - a) * (t - s) := by
  ext
  · simp [between]
    ring
  · simp [between]
    ring

theorem dist_between (a b : Vec ℝ) (s t : ℝ) :
    (between a b s).dist (between a b t) = a.dist b * |t - s| := by
  rw [dist, between_sub_between, norm_mul, ← dist]

/-- A share of a part of the way is a share of the way. -/
theorem between_between (a b : Vec ℝ) (s t r : ℝ) :
    between (between a b s) (between a b t) r = between a b (s + (t - s) * r) := by
  ext
  · simp [between]
    ring
  · simp [between]
    ring

/-- What the cuts at both ends leave of the way. -/
theorem dist_between_comm {x y : ℝ} (h : x + y < a.dist b) (hpos : 0 < a.dist b) :
    (between a b (x / a.dist b)).dist (between b a (y / a.dist b)) = a.dist b - x - y := by
  have hshare : 1 - y / a.dist b - x / a.dist b = (a.dist b - x - y) / a.dist b := by
    field_simp
    ring
  rw [between_comm b, dist_between, hshare, abs_of_pos (div_pos (by linarith) hpos),
    mul_div_cancel₀ _ hpos.ne']

/-- A part of the way has the direction of the whole. -/
theorem unit_between (a b : Vec ℝ) (h : s < t) :
    (between a b t - between a b s).unit = (b - a).unit := by
  rw [between_sub_between, unit_mul _ (sub_pos.mpr h)]

/-- The way back from one cut to the other has the direction of the whole way. -/
theorem unit_between_comm (a b : Vec ℝ) (h : s + t < 1) :
    (between b a t - between a b s).unit = (b - a).unit := by
  rw [between_comm b]
  exact unit_between a b (by linarith)

end Vec

/-! ## Straight paths -/

namespace Polyline

open Vec

variable {a b : Vec ℝ}

theorem vertexGap_pos : (0 : ℝ) < vertexGap := by
  rw [vertexGap]
  norm_num

theorem ofPoints_pair (a b : Vec ℝ) :
    ofPoints [a, b] = if a.dist b < vertexGap then ⟨[a]⟩ else ⟨[a, b]⟩ := by
  rw [ofPoints, keepApart]
  split <;> simp [keepApart]

theorem length_pair (a b : Vec ℝ) : (⟨[a, b]⟩ : Polyline ℝ).length = a.dist b := by
  change (0.0 : ℝ) + a.dist b = a.dist b
  rw [decimal_zero, zero_add]

theorem pieces_pair (a b : Vec ℝ) :
    (⟨[a, b]⟩ : Polyline ℝ).pieces = [⟨⟨0, a.dist b⟩, a, b⟩] := by
  change [(⟨⟨0.0, 0.0 + a.dist b⟩, a, b⟩ : Piece ℝ)] = [⟨⟨0, a.dist b⟩, a, b⟩]
  rw [decimal_zero, zero_add]

theorem pieceAt_pair (a b : Vec ℝ) (t : ℝ) :
    (⟨[a, b]⟩ : Polyline ℝ).pieceAt t = some ⟨⟨0, a.dist b⟩, a, b⟩ := by
  rw [pieceAt, pieces_pair]
  simp

theorem derivative_pair (a b : Vec ℝ) (t : ℝ) :
    (⟨[a, b]⟩ : Polyline ℝ).derivative t = (b - a).unit := by
  rw [derivative, pieceAt_pair]
  rfl

theorem sample_pair {t : ℝ} (h0 : 0 ≤ t) (h1 : t ≤ a.dist b) :
    (⟨[a, b]⟩ : Polyline ℝ).sample t = between a b (t / a.dist b) := by
  have hshare : (t - 0) / (⟨0, a.dist b⟩ : Interval ℝ).length = t / a.dist b := by
    rw [Interval.length, sub_zero, sub_zero]
  rw [sample, pieceAt_pair]
  dsimp only
  rw [Piece.sample, hshare, decimal_zero, decimal_one,
    Scalar.clamp_of_mem (div_nonneg h0 (h0.trans h1)) (div_le_one_of_le₀ h1 (h0.trans h1)), between]

/-- Lengths between the cuts are counted from the first one. -/
theorem sample_between {x y t : ℝ} (hpos : 0 < a.dist b) (hcuts : x + y < a.dist b) (h0 : 0 ≤ t)
    (h1 : t ≤ a.dist b - x - y) :
    (⟨[between a b (x / a.dist b), between b a (y / a.dist b)]⟩ : Polyline ℝ).sample t =
      between a b ((x + t) / a.dist b) := by
  have hlength := dist_between_comm hcuts hpos
  have hrest : a.dist b - x - y ≠ 0 := by linarith
  rw [sample_pair h0 (hlength ▸ h1), hlength, between_comm b, between_between]
  congr 1
  field_simp
  ring

theorem derivative_between {x y : ℝ} (hpos : 0 < a.dist b) (hcuts : x + y < a.dist b) (t : ℝ) :
    (⟨[between a b (x / a.dist b), between b a (y / a.dist b)]⟩ : Polyline ℝ).derivative t =
      (b - a).unit := by
  rw [derivative_pair]
  refine unit_between_comm a b ?_
  rw [← add_div, div_lt_one hpos]
  exact hcuts

/-- A cut by less than nothing is no cut. -/
theorem trimmed_max (p : Polyline ℝ) (s t : ℝ) :
    p.trimmed (max 0 s) (max 0 t) = p.trimmed s t := by
  simp only [trimmed, Scalar.max_eq, decimal_zero, sup_left_idem]

/-- Neither end lies between the cuts. -/
theorem interior_pair {s t : ℝ} (hs : 0 ≤ s) (ht : t ≤ a.dist b) :
    ((⟨[a, b]⟩ : Polyline ℝ).points.zip (⟨[a, b]⟩ : Polyline ℝ).lengths).filter
      (fun (_, x) => s < x ∧ x < t) = [] := by
  have hlengths : (⟨[a, b]⟩ : Polyline ℝ).lengths = [0, a.dist b] := by
    change [(0.0 : ℝ), 0.0 + a.dist b] = [0, a.dist b]
    rw [decimal_zero, zero_add]
  simp [hlengths, hs.not_gt, ht.not_gt]

/-- A straight path that is cut back at both ends leads straight from the one cut to the other.
Nothing is left where they lie too near to each other. -/
theorem trimmed_pair {s t : ℝ} (hs : 0 ≤ s) (ht : 0 ≤ t) :
    (⟨[a, b]⟩ : Polyline ℝ).trimmed s t =
      if a.dist b - s - t ≤ vertexGap then none
      else some ⟨[between a b (s / a.dist b), between b a (t / a.dist b)]⟩ := by
  have hrange : (⟨s, a.dist b - t⟩ : Interval ℝ).length = a.dist b - s - t := by
    rw [Interval.length]
    ring
  have hdegenerate : (⟨[a, b]⟩ : Polyline ℝ).isDegenerate = false := rfl
  rw [trimmed, decimal_zero, Scalar.max_eq, Scalar.max_eq, max_eq_right hs, max_eq_right ht,
    length_pair, hdegenerate, hrange]
  simp only [Bool.false_eq_true, false_or]
  by_cases hshort : a.dist b - s - t ≤ vertexGap
  · rw [if_pos hshort, if_pos hshort]
  · have hgap := vertexGap_pos
    have hlong : 0 < a.dist b := by linarith
    have hstop : between a b ((a.dist b - t) / a.dist b) = between b a (t / a.dist b) := by
      rw [between_comm, sub_div, div_self hlong.ne', sub_sub_cancel]
    have hapart : ¬ (between a b (s / a.dist b)).dist (between b a (t / a.dist b)) < vertexGap := by
      rw [dist_between_comm (by linarith) hlong]
      linarith
    rw [if_neg hshort, if_neg hshort, sample_pair hs (by linarith),
      sample_pair (by linarith) (by linarith), interior_pair hs (by linarith), hstop, List.map_nil,
      List.singleton_append, ofPoints_pair, if_neg hapart]

/-- A road is too short where it has no length, or loses it to the cuts. -/
theorem trimmed_line (a b : Vec ℝ) {s t : ℝ} (hs : 0 ≤ s) (ht : 0 ≤ t) :
    (line a b).trimmed s t =
      if a.dist b ≤ vertexGap ∨ a.dist b - s - t ≤ vertexGap then none
      else some ⟨[between a b (s / a.dist b), between b a (t / a.dist b)]⟩ := by
  rw [line, ofPoints_pair]
  by_cases hshort : a.dist b < vertexGap
  · rw [if_pos hshort, if_pos (.inl hshort.le)]
    rfl
  · rw [if_neg hshort, trimmed_pair hs ht]
    refine if_congr (Iff.symm (or_iff_right_of_imp fun hle => ?_)) rfl rfl
    linarith

end Polyline

end Roadworks
