import Roadworks.Proofs.Cluster.Nearness
import Roadworks.Proofs.Exact.Reals
/-! # Nearness over the reals

A grid whose cells have the size of the tolerance misses no pair of near points, wherever its
origin lies. -/

namespace Roadworks

variable {tolerance : ℝ}

namespace Grid

/-- Coordinates that are at most one cell apart lie in columns that touch. -/
theorem natAbs_cellIndex_sub_le (ht : 0 < tolerance) {a b : ℝ} (h : |b - a| ≤ tolerance) :
    ((empty tolerance).cellIndex a - (empty tolerance).cellIndex b).natAbs ≤ 1 := by
  have hscaled : |b * (1 / tolerance) - a * (1 / tolerance)| ≤ 1 := by
    rw [← sub_mul, abs_mul, abs_of_pos (one_div_pos.mpr ht), mul_one_div]
    exact (div_le_one ht).mpr h
  have hdensity : (empty tolerance).density = 1 / tolerance := by
    change (1.0 : ℝ) / tolerance = 1 / tolerance
    norm_num
  rcases abs_le.mp hscaled with ⟨hlow, hhigh⟩
  have hba : ⌊b * (1 / tolerance)⌋ ≤ ⌊a * (1 / tolerance)⌋ + 1 := by
    rw [← Int.floor_add_one]
    exact Int.floor_le_floor (by linarith)
  have hab : ⌊a * (1 / tolerance)⌋ ≤ ⌊b * (1 / tolerance)⌋ + 1 := by
    rw [← Int.floor_add_one]
    exact Int.floor_le_floor (by linarith)
  rw [cellIndex, cellIndex, hdensity]
  change (max (-cellLimit) (min cellLimit ⌊a * (1 / tolerance)⌋) -
    max (-cellLimit) (min cellLimit ⌊b * (1 / tolerance)⌋)).natAbs ≤ 1
  omega

theorem isBeside_of_dist_le (ht : 0 < tolerance) {p q : Vec ℝ} (h : q.dist p ≤ tolerance) :
    isBeside ((empty tolerance).cellOf q) ((empty tolerance).cellOf p) := by
  have hx := natAbs_cellIndex_sub_le ht ((Vec.abs_x_sub_le_dist q p).trans h)
  have hy := natAbs_cellIndex_sub_le ht ((Vec.abs_y_sub_le_dist q p).trans h)
  simp [isBeside, cellOf, hx, hy]

end Grid

/-- The search compares all points that are near. -/
theorem isNear_iff (ht : 0 < tolerance) {q p : Vec ℝ} :
    IsNear tolerance q p ↔ q.dist p ≤ tolerance :=
  ⟨fun h => h.2, fun h => ⟨Grid.isBeside_of_dist_le ht h, h⟩⟩

theorem isNear_comm (ht : 0 < tolerance) {q p : Vec ℝ} :
    IsNear tolerance q p ↔ IsNear tolerance p q := by
  rw [isNear_iff ht, isNear_iff ht, Vec.dist_comm]

theorem isNear_self (ht : 0 < tolerance) (p : Vec ℝ) : IsNear tolerance p p := by
  rw [isNear_iff ht, Vec.dist_self]
  exact ht.le

/-- Nearness stays when both points are moved, though they may come to lie in other cells. -/
theorem isNear_add_right_iff (ht : 0 < tolerance) {q p v : Vec ℝ} :
    IsNear tolerance (q + v) (p + v) ↔ IsNear tolerance q p := by
  rw [isNear_iff ht, isNear_iff ht, Vec.dist_add_right]

end Roadworks
