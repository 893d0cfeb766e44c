import Roadworks.Proofs.Scalar.Lengths
import Roadworks.Proofs.Exact.Nearness
/-! # What the cells around a point hold

Over the reals the cells around a point hold all points within the size of a cell. In doubles a
point at that distance can be missed, since the inverse of the size and the product with it are both
rounded before they are cut off to a whole number. A radius is covered that falls short of the size
by a few units of the last place and by one for each cell up to the points. Half the size makes up
for all of that wherever the points lie: the columns of two points are rounded by less than a
quarter of a cell while doubles are dense enough to tell cells apart, and beyond that two doubles so
near to each other are the same. -/

namespace Roadworks

open Binary64 Float.Model

/-! ## Computed distances -/

/-- No coordinate is an infinity, or not a number. -/
def Vec.IsFinite {α : Type} [Scalar α] (p : Vec α) : Prop :=
  Scalar.isFinite p.x = true ∧ Scalar.isFinite p.y = true

/-- Where the computed distance is at most the radius, the coordinates are not much further
apart. -/
theorem Vec.abs_sub_le_of_dist_le {p q : Vec Float} (hp : p.IsFinite) (hq : q.IsFinite)
    {radius : Float} (hfinite : radius.isFinite = true) {d : ℝ} (hd : 2 ^ (-500 : ℤ) ≤ d)
    (hradius : toReal radius ≤ kept ^ 3 * d) (hdist : p.dist q ≤ radius) :
    |toReal q.x - toReal p.x| ≤ d ∧ |toReal q.y - toReal p.y| ≤ d := by
  have hx := approximates_sub hq.1 hp.1
  have hy := approximates_sub hq.2 hp.2
  have hback {c : ℝ} (hc : kept ^ 3 * c ≤ toReal radius) : c ≤ d :=
    le_of_mul_le_mul_left (hc.trans hradius) (pow_pos kept_pos 3)
  constructor
  · by_contra hway
    have hleast := (IsAtLeast.norm hx hy (hd.trans (not_le.mp hway).le) le_rfl).1
    exact hway (hback (hleast.le_toReal_of_le hfinite hdist))
  · by_contra hway
    have hleast := (IsAtLeast.norm hy hx (hd.trans (not_le.mp hway).le) le_rfl).2
    exact hway (hback (hleast.le_toReal_of_le hfinite hdist))

namespace Grid

variable {cell a b : Float}

/-! ## The inverse of the size -/

/-- The squares of the distances that matter do not vanish where cells have this size. -/
theorem two_zpow_le_toReal (hcell : 1e-150 ≤ cell) (hfinite : cell.isFinite = true) :
    2 ^ (-499 : ℤ) ≤ toReal cell := by
  have hbits : (1e-150 : Float) = .ofBits 0x20CA2FE76A3F9475 := by decide +kernel
  have hleast : toReal 1e-150 = (7371020360979573 : ℕ) * 2 ^ (-551 : ℤ) :=
    toReal_ofBits (by decide) hbits rfl
  refine le_trans ?_ (toReal_le_of_le (by decide +kernel) hfinite hcell)
  rw [hleast, show (-499 : ℤ) = 52 + -551 from rfl, zpow_add₀ two_ne_zero]
  exact mul_le_mul_of_nonneg_right (by norm_num) (by positivity)

theorem two_zpow_le_half (h : 2 ^ (-499 : ℤ) ≤ toReal cell) :
    2 ^ (-500 : ℤ) ≤ toReal cell / 2 := by
  rw [le_div_iff₀ two_pos, ← zpow_add_one₀ two_ne_zero]
  exact h

/-- The inverse of the size of a cell is a double, and not far from what it should be. -/
theorem inverse_spec (h : 2 ^ (-499 : ℤ) ≤ toReal cell) (hfinite : cell.isFinite = true) :
    (1.0 / cell).isFinite = true ∧ |toReal (1.0 / cell) * toReal cell - 1| ≤ 5 / 2 ^ 53 := by
  have hpos : 0 < toReal cell := lt_of_lt_of_le (by positivity) h
  have habs : |1 / toReal cell| = 1 / toReal cell := abs_of_pos (one_div_pos.mpr hpos)
  have hnear : Approximates (1.0 / cell) (1 / toReal cell) := by
    rw [← toReal_one]
    exact approximates_div rfl hfinite hpos.ne'
  have hisFinite : (1.0 / cell).isFinite = true := by
    refine hnear.isFinite ?_
    rw [habs, div_lt_iff₀ hpos, ← zpow_natCast]
    calc (1 : ℝ) < 2 ^ ((1023 : ℕ) + -499 : ℤ) := one_lt_zpow₀ one_lt_two (by norm_num)
      _ = 2 ^ ((1023 : ℕ) : ℤ) * 2 ^ (-499 : ℤ) := zpow_add₀ two_ne_zero _ _
      _ ≤ 2 ^ ((1023 : ℕ) : ℤ) * toReal cell := mul_le_mul_of_nonneg_left h (by positivity)
  refine ⟨hisFinite, ?_⟩
  obtain ⟨t, ht⟩ := (approximates_iff hisFinite).mp hnear
  have herror := ht.abs_sub_le_add
  rw [habs] at herror
  have hleast : 2 ^ (-1074 : ℤ) * toReal cell ≤ 2 ^ (-50 : ℤ) := by
    calc 2 ^ (-1074 : ℤ) * toReal cell ≤ 2 ^ (-1074 : ℤ) * 2 ^ (1024 : ℤ) :=
          mul_le_mul_of_nonneg_left (abs_lt.mp (abs_toReal_lt cell)).2.le (by positivity)
      _ = 2 ^ (-50 : ℤ) := (zpow_add₀ two_ne_zero _ _).symm
  calc |toReal (1.0 / cell) * toReal cell - 1|
      = |toReal (1.0 / cell) - 1 / toReal cell| * toReal cell := by
        rw [← abs_of_pos hpos, ← abs_mul, abs_of_pos hpos, sub_mul, one_div_mul_cancel hpos.ne']
    _ ≤ (1 / toReal cell / 2 ^ 53 + 2 ^ (-1074 : ℤ) / 2) * toReal cell :=
        mul_le_mul_of_nonneg_right herror hpos.le
    _ = 1 / 2 ^ 53 + 2 ^ (-1074 : ℤ) * toReal cell / 2 := by
        rw [add_mul, div_right_comm, div_mul_cancel₀ _ hpos.ne']
        ring
    _ ≤ 1 / 2 ^ 53 + 2 ^ (-50 : ℤ) / 2 := by gcongr
    _ = 5 / 2 ^ 53 := by norm_num

/-! ## Columns -/

/-- The column of a coordinate is the whole part of a number nearest to the product. -/
theorem floor_mul_spec {inverse : Float} (ha : a.isFinite = true)
    (hinverse : inverse.isFinite = true) (h : |toReal a * toReal inverse| < 2 ^ 53) :
    ∃ X t, floor (a * inverse) = ⌊X⌋ ∧ IsRounded (toReal a * toReal inverse) X t := by
  have hnear := approximates_mul ha hinverse
  have hfinite := hnear.isFinite (h.trans (pow_lt_pow_right₀ one_lt_two (by norm_num)))
  obtain ⟨t, ht⟩ := (approximates_iff hfinite).mp hnear
  exact ⟨_, t, floor_eq hfinite, ht⟩

theorem cellIndex_empty (cell v : Float) :
    (empty cell).cellIndex v = max (-cellLimit) (min cellLimit (floor (v * (1.0 / cell)))) := rfl

theorem toReal_inverse_pos {inverse : Float} (hpos : 0 < toReal cell)
    (h : |toReal inverse * toReal cell - 1| ≤ 5 / 2 ^ 53) : 0 < toReal inverse :=
  pos_of_mul_pos_left (by linarith [(abs_le.mp h).1]) hpos.le

/-- So far out that columns are rounded to whole numbers and beyond, doubles that differ are further
apart. -/
theorem mul_eq_of_far {inverse : Float} (hpos : 0 < toReal cell)
    (h : |toReal inverse * toReal cell - 1| ≤ 5 / 2 ^ 53) (ha : a.isFinite = true)
    (hb : b.isFinite = true) (hnear : |toReal b - toReal a| ≤ 3 / 5 * toReal cell)
    (hlarge : 2 ^ 53 ≤ max |toReal b| |toReal a| * toReal inverse) : b * inverse = a * inverse := by
  have hhigh := (abs_le.mp h).2
  have hmax : 0 ≤ max |toReal b| |toReal a| := (abs_nonneg _).trans (le_max_left _ _)
  have hscaled : 2 ^ 53 * toReal cell ≤ max |toReal b| |toReal a| * (101 / 100) := by
    calc 2 ^ 53 * toReal cell
        ≤ max |toReal b| |toReal a| * toReal inverse * toReal cell :=
          mul_le_mul_of_nonneg_right hlarge hpos.le
      _ = max |toReal b| |toReal a| * (toReal inverse * toReal cell) := mul_assoc _ _ _
      _ ≤ max |toReal b| |toReal a| * (101 / 100) :=
          mul_le_mul_of_nonneg_left (by linarith) hmax
  have hsame := unpack_eq_of_far hb ha (by linarith) hnear (by linarith)
  exact congrArg (fun u => Float.ofModel (.pack (UnpackedFloat.mul .binary64 u
    inverse.toModel.unpack))) hsame

/-- Coordinates that are not much more than half a cell apart lie in columns that touch. -/
theorem cellIndex_le (h : 2 ^ (-499 : ℤ) ≤ toReal cell) (hfinite : cell.isFinite = true)
    (ha : a.isFinite = true) (hb : b.isFinite = true)
    (hnear : |toReal b - toReal a| ≤ 3 / 5 * toReal cell) :
    (empty cell).cellIndex b ≤ (empty cell).cellIndex a + 1 := by
  have hpos : 0 < toReal cell := lt_of_lt_of_le (by positivity) h
  obtain ⟨hinverse, herror⟩ := inverse_spec h hfinite
  have hinvpos := toReal_inverse_pos hpos herror
  rw [cellIndex_empty, cellIndex_empty]
  generalize 1.0 / cell = inverse at hinverse herror hinvpos ⊢
  rcases lt_or_ge (max |toReal b| |toReal a| * toReal inverse) (2 ^ 53) with hsmall | hlarge
  · have hcolumn (v : ℝ) (hv : |v| ≤ max |toReal b| |toReal a|) :
        |v * toReal inverse| < 2 ^ 53 := by
      rw [abs_mul, abs_of_pos hinvpos]
      exact (mul_le_mul_of_nonneg_right hv hinvpos.le).trans_lt hsmall
    have hx := hcolumn (toReal a) (le_max_right _ _)
    have hy := hcolumn (toReal b) (le_max_left _ _)
    obtain ⟨X, t, hX, ht⟩ := floor_mul_spec ha hinverse hx
    obtain ⟨Y, u, hY, hu⟩ := floor_mul_spec hb hinverse hy
    have hway : toReal b * toReal inverse - toReal a * toReal inverse < 3 / 4 := by
      calc toReal b * toReal inverse - toReal a * toReal inverse
          = (toReal b - toReal a) * toReal inverse := by ring
        _ ≤ 3 / 5 * toReal cell * toReal inverse :=
            mul_le_mul_of_nonneg_right ((le_abs_self _).trans hnear) hinvpos.le
        _ < 3 / 4 := by linarith [(abs_le.mp herror).2]
    have hfloor := ht.floor_le hu hx hy hway
    rw [hX, hY]
    omega
  · rw [mul_eq_of_far hpos herror ha hb hnear hlarge]
    omega

/-- Coordinates that are less than a cell apart lie in columns that touch, if they are not so many
cells away that the rounding of their columns makes up the difference. -/
theorem cellIndex_le_of_within (h : 2 ^ (-499 : ℤ) ≤ toReal cell) (hfinite : cell.isFinite = true)
    (ha : a.isFinite = true) (hb : b.isFinite = true) {cells : ℝ}
    (hca : |toReal a| ≤ cells * toReal cell) (hcb : |toReal b| ≤ cells * toReal cell)
    (hnear : |toReal b - toReal a| ≤ (1 - (cells + 8) / 2 ^ 52) * toReal cell) :
    (empty cell).cellIndex b ≤ (empty cell).cellIndex a + 1 := by
  have hpos : 0 < toReal cell := lt_of_lt_of_le (by positivity) h
  have hcells : 0 ≤ cells := le_of_mul_le_mul_right (by linarith [abs_nonneg (toReal a)]) hpos
  have hshare : 0 ≤ 1 - (cells + 8) / 2 ^ 52 :=
    le_of_mul_le_mul_right (by linarith [abs_nonneg (toReal b - toReal a)]) hpos
  obtain ⟨hinverse, herror⟩ := inverse_spec h hfinite
  have hinvpos := toReal_inverse_pos hpos herror
  rw [cellIndex_empty, cellIndex_empty]
  generalize 1.0 / cell = inverse at hinverse herror hinvpos ⊢
  have hunit : toReal cell * toReal inverse ≤ 1 + 5 / 2 ^ 53 := by
    linarith [(abs_le.mp herror).2]
  have hcolumn {v : Float} (hv : |toReal v| ≤ cells * toReal cell) :
      |toReal v * toReal inverse| ≤ cells + 3 := by
    rw [abs_mul, abs_of_pos hinvpos]
    calc |toReal v| * toReal inverse ≤ cells * toReal cell * toReal inverse :=
          mul_le_mul_of_nonneg_right hv hinvpos.le
      _ = cells * (toReal cell * toReal inverse) := mul_assoc _ _ _
      _ ≤ cells * (1 + 5 / 2 ^ 53) := mul_le_mul_of_nonneg_left hunit hcells
      _ ≤ cells + 3 := by linarith
  obtain ⟨X, t, hX, ht⟩ := floor_mul_spec ha hinverse ((hcolumn hca).trans_lt (by linarith))
  obtain ⟨Y, u, hY, hu⟩ := floor_mul_spec hb hinverse ((hcolumn hcb).trans_lt (by linarith))
  have hway : toReal b * toReal inverse - toReal a * toReal inverse ≤
      1 - (cells + 3 + 1) / 2 ^ 52 := by
    calc toReal b * toReal inverse - toReal a * toReal inverse
        = (toReal b - toReal a) * toReal inverse := by ring
      _ ≤ (1 - (cells + 8) / 2 ^ 52) * toReal cell * toReal inverse :=
          mul_le_mul_of_nonneg_right ((le_abs_self _).trans hnear) hinvpos.le
      _ = (1 - (cells + 8) / 2 ^ 52) * (toReal cell * toReal inverse) := mul_assoc _ _ _
      _ ≤ (1 - (cells + 8) / 2 ^ 52) * (1 + 5 / 2 ^ 53) := mul_le_mul_of_nonneg_left hunit hshare
      _ ≤ 1 - (cells + 3 + 1) / 2 ^ 52 := by linarith
  have hfloor := ht.floor_le_of_abs_le hu (hcolumn hca) (hcolumn hcb) hway
  rw [hX, hY]
  omega

/-! ## Radii that the cells cover -/

/-- Both coordinates are at most `d` away from the axes. -/
def IsWithin (d : ℝ) (p : Vec Float) : Prop := |toReal p.x| ≤ d ∧ |toReal p.y| ≤ d

/-- Radii for which the cells around one of the points hold the other. -/
inductive Spans (cell radius : Float) (p q : Vec Float) : Prop where
  | half : toReal radius ≤ toReal cell / 2 → Spans cell radius p q
  /-- The radius falls short of the size by some units of the last place: by sixteen, and by one for
  each cell from the axes to the points. -/
  | short (cells : ℝ) : IsWithin (cells * toReal cell) p → IsWithin (cells * toReal cell) q →
      toReal radius ≤ (1 - (cells + 16) / 2 ^ 52) * toReal cell → Spans cell radius p q

/-- Cells lie beside each other if coordinates that are as near as theirs lie in columns that
touch. -/
theorem isBeside_of_abs_sub_le {g : Grid Float} {P : Float → Prop} {d : ℝ}
    (hcolumn : ∀ a b, P a → P b → |toReal b - toReal a| ≤ d → g.cellIndex b ≤ g.cellIndex a + 1)
    {p q : Vec Float} (hp : P p.x ∧ P p.y) (hq : P q.x ∧ P q.y)
    (hx : |toReal q.x - toReal p.x| ≤ d) (hy : |toReal q.y - toReal p.y| ≤ d) :
    isBeside (g.cellOf p) (g.cellOf q) := by
  have hright := hcolumn _ _ hp.1 hq.1 hx
  have hleft := hcolumn _ _ hq.1 hp.1 ((abs_sub_comm _ _).trans_le hx)
  have habove := hcolumn _ _ hp.2 hq.2 hy
  have hbelow := hcolumn _ _ hq.2 hp.2 ((abs_sub_comm _ _).trans_le hy)
  rw [isBeside, Bool.and_eq_true]
  constructor
  · refine decide_eq_true ?_
    simp only [cellOf]
    omega
  · refine decide_eq_true ?_
    simp only [cellOf]
    omega

section

variable {radius : Float} {p q : Vec Float}

theorem isBeside_of_le_half (h : 2 ^ (-499 : ℤ) ≤ toReal cell) (hfinite : cell.isFinite = true)
    (hradius : radius.isFinite = true) (hp : p.IsFinite) (hq : q.IsFinite)
    (hhalf : toReal radius ≤ toReal cell / 2) (hdist : p.dist q ≤ radius) :
    isBeside ((empty cell).cellOf p) ((empty cell).cellOf q) := by
  have hpos : 0 < toReal cell := lt_of_lt_of_le (by positivity) h
  have hfar := two_zpow_le_half h
  have hkept : toReal radius ≤ kept ^ 3 * (3 / 5 * toReal cell) := by
    have hshare : (5 : ℝ) / 6 ≤ kept ^ 3 := by norm_num [kept]
    have hscaled := mul_le_mul_of_nonneg_right hshare (by linarith : 0 ≤ 3 / 5 * toReal cell)
    linarith
  obtain ⟨hx, hy⟩ := Vec.abs_sub_le_of_dist_le hp hq hradius (by linarith) hkept hdist
  exact isBeside_of_abs_sub_le (P := fun v => v.isFinite = true)
    (fun _ _ ha hb => cellIndex_le h hfinite ha hb) hp hq hx hy

theorem isBeside_of_short (h : 2 ^ (-499 : ℤ) ≤ toReal cell) (hfinite : cell.isFinite = true)
    (hradius : radius.isFinite = true) (hp : p.IsFinite) (hq : q.IsFinite) {cells : ℝ}
    (hnearp : IsWithin (cells * toReal cell) p) (hnearq : IsWithin (cells * toReal cell) q)
    (hshort : toReal radius ≤ (1 - (cells + 16) / 2 ^ 52) * toReal cell)
    (hdist : p.dist q ≤ radius) :
    isBeside ((empty cell).cellOf p) ((empty cell).cellOf q) := by
  have hpos : 0 < toReal cell := lt_of_lt_of_le (by positivity) h
  have hfar := two_zpow_le_half h
  rcases le_or_gt (toReal radius) (toReal cell / 2) with hhalf | hlong
  · exact isBeside_of_le_half h hfinite hradius hp hq hhalf hdist
  have hless : (1 : ℝ) / 2 < 1 - (cells + 16) / 2 ^ 52 :=
    lt_of_mul_lt_mul_right (by linarith) hpos.le
  have hcells : 0 ≤ cells :=
    le_of_mul_le_mul_right (by linarith [abs_nonneg (toReal p.x), hnearp.1]) hpos
  -- The computed distance loses three units, which leaves eight for the columns.
  have hshare : 1 - (cells + 16) / 2 ^ 52 ≤ kept ^ 3 * (1 - (cells + 8) / 2 ^ 52) := by
    have hthree : 1 - 3 / 2 ^ 53 ≤ kept ^ 3 := by norm_num [kept]
    have hscaled := mul_le_mul_of_nonneg_right hthree
      (by linarith : 0 ≤ 1 - (cells + 8) / 2 ^ 52)
    linarith
  have hkept : toReal radius ≤ kept ^ 3 * ((1 - (cells + 8) / 2 ^ 52) * toReal cell) := by
    rw [← mul_assoc]
    exact hshort.trans (mul_le_mul_of_nonneg_right hshare hpos.le)
  have hleast : 1 / 2 * toReal cell ≤ (1 - (cells + 8) / 2 ^ 52) * toReal cell :=
    mul_le_mul_of_nonneg_right (by linarith) hpos.le
  obtain ⟨hx, hy⟩ := Vec.abs_sub_le_of_dist_le hp hq hradius (by linarith) hkept hdist
  exact isBeside_of_abs_sub_le
    (P := fun v => v.isFinite = true ∧ |toReal v| ≤ cells * toReal cell)
    (fun _ _ ha hb => cellIndex_le_of_within h hfinite ha.1 hb.1 ha.2 hb.2)
    ⟨⟨hp.1, hnearp.1⟩, hp.2, hnearp.2⟩ ⟨⟨hq.1, hnearq.1⟩, hq.2, hnearq.2⟩ hx hy

theorem Spans.isBeside (hspans : Spans cell radius p q) (hcell : 1e-150 ≤ cell)
    (hfinite : cell.isFinite = true) (hradius : radius.isFinite = true) (hp : p.IsFinite)
    (hq : q.IsFinite) (hdist : p.dist q ≤ radius) :
    isBeside ((empty cell).cellOf p) ((empty cell).cellOf q) := by
  have hsize := two_zpow_le_toReal hcell hfinite
  cases hspans with
  | half hhalf => exact isBeside_of_le_half hsize hfinite hradius hp hq hhalf hdist
  | short cells hnearp hnearq hshort =>
      exact isBeside_of_short hsize hfinite hradius hp hq hnearp hnearq hshort hdist

end

/-! ## Candidates -/

section

variable {α : Type} [Scalar α]

/-- The grid that holds the given points. -/
def filled (cellSize : α) (points : List (Nat × Vec α)) : Grid α :=
  points.foldl (fun g e => g.insert e.1 e.2) (empty cellSize)

theorem filled_eq (cellSize : α) (points : List (Nat × Vec α)) :
    filled cellSize points = { empty cellSize with
      entries := points.map fun e => ((empty cellSize).cellOf e.2, e.1) } := by
  induction points using List.reverseRecOn with
  | nil => rfl
  | append_singleton points e ih =>
      rw [filled] at ih ⊢
      rw [List.foldl_append, ih, List.map_append]
      rfl

theorem mem_candidates_filled_iff {cellSize : α} {points : List (Nat × Vec α)} {q : Vec α}
    {index : Nat} : index ∈ (filled cellSize points).candidates q ↔
      ∃ p, (index, p) ∈ points ∧
        isBeside ((empty cellSize).cellOf p) ((empty cellSize).cellOf q) := by
  rw [filled_eq, mem_candidates_iff]
  constructor
  · rintro ⟨_, he, hbeside, rfl⟩
    obtain ⟨⟨i, p⟩, hp, rfl⟩ := List.mem_map.mp he
    exact ⟨p, hp, hbeside⟩
  · rintro ⟨p, hp, hbeside⟩
    exact ⟨_, List.mem_map_of_mem hp, hbeside, rfl⟩

end

/-- In doubles, all points within a radius that the cells span are candidates. Over the reals, all
points within the size of a cell are. -/
theorem candidates_cover (i : Nat) :
    (∀ (cell radius : Float) (points : List (Nat × Vec Float)) (p q : Vec Float),
      1e-150 ≤ cell → cell.isFinite = true → radius.isFinite = true → (i, p) ∈ points →
      p.IsFinite → q.IsFinite → Spans cell radius p q → p.dist q ≤ radius →
        i ∈ (filled cell points).candidates q) ∧
    ∀ (cell : ℝ) (points : List (Nat × Vec ℝ)) (p q : Vec ℝ),
      0 < cell → (i, p) ∈ points → p.dist q ≤ cell → i ∈ (filled cell points).candidates q := by
  constructor
  · intro cell radius points p q hcell hfinite hradius hmem hp hq hspans hdist
    have hbeside := hspans.isBeside hcell hfinite hradius hp hq hdist
    exact mem_candidates_filled_iff.mpr ⟨p, hmem, hbeside⟩
  · intro cell points p q hcell hmem hdist
    exact mem_candidates_filled_iff.mpr ⟨p, hmem, isBeside_of_dist_le hcell hdist⟩

theorem toReal_coordinates : toReal 33.5 = 4714705859903488 * 2 ^ (-47 : ℤ) ∧
    toReal 26.8 = 7543529375845581 * 2 ^ (-48 : ℤ) ∧
    toReal 6.7 = 7543529375845581 * 2 ^ (-50 : ℤ) := by
  refine ⟨?_, ?_, ?_⟩
  · exact toReal_ofBits (m := 4714705859903488) (b := 0x4040C00000000000) (by decide) rfl rfl
  · exact toReal_ofBits (m := 7543529375845581) (b := 0x403ACCCCCCCCCCCD) (by decide) rfl rfl
  · exact toReal_ofBits (m := 7543529375845581) (b := 0x401ACCCCCCCCCCCD) (by decide) rfl rfl

theorem spans_wider : Spans 6.75 6.7 ⟨26.8, 0.0⟩ ⟨33.5, 0.0⟩ := by
  obtain ⟨hfar, hnear, hradius⟩ := toReal_coordinates
  have hsize : toReal 6.75 = 7599824371187712 * 2 ^ (-50 : ℤ) :=
    toReal_ofBits (m := 7599824371187712) (b := 0x401B000000000000) (by decide) rfl rfl
  have hzero : toReal 0.0 = 0 := rfl
  refine .short 5 ⟨?_, ?_⟩ ⟨?_, ?_⟩ ?_
  · rw [hnear, hsize]
    norm_num
  · rw [hzero, hsize]
    norm_num
  · rw [hfar, hsize]
    norm_num
  · rw [hzero, hsize]
    norm_num
  · rw [hradius, hsize]
    norm_num

/-- Cells that are a little wider than the radius make up for what is rounded. Over the reals they
need not be. -/
theorem candidates_cover_pair : (⟨26.8, 0.0⟩ : Vec Float).dist ⟨33.5, 0.0⟩ ≤ 6.7 ∧
    0 ∈ (filled 6.75 [(0, (⟨26.8, 0.0⟩ : Vec Float))]).candidates ⟨33.5, 0.0⟩ ∧
    (⟨26.8, 0⟩ : Vec ℝ).dist ⟨33.5, 0⟩ ≤ 6.7 ∧
    0 ∈ (filled 6.7 [(0, (⟨26.8, 0⟩ : Vec ℝ))]).candidates ⟨33.5, 0⟩ := by
  have hdist : (⟨26.8, 0.0⟩ : Vec Float).dist ⟨33.5, 0.0⟩ ≤ 6.7 := by decide +kernel
  have hexact : (⟨26.8, 0⟩ : Vec ℝ).dist ⟨33.5, 0⟩ ≤ 6.7 := by
    norm_num [Vec.dist_eq]
  obtain ⟨hdoubles, hreals⟩ := candidates_cover 0
  exact ⟨hdist, hdoubles 6.75 6.7 _ ⟨26.8, 0.0⟩ ⟨33.5, 0.0⟩ (by decide +kernel) rfl rfl
    List.mem_cons_self ⟨rfl, rfl⟩ ⟨rfl, rfl⟩ spans_wider hdist, hexact,
    hreals 6.7 _ ⟨26.8, 0⟩ ⟨33.5, 0⟩ (by norm_num) List.mem_cons_self hexact⟩

/-- Two points no further apart than a cell is wide can lie on either side of a column. -/
theorem candidates_miss :
    (⟨26.8, 0.0⟩ : Vec Float).dist ⟨33.5, 0.0⟩ ≤ 6.7 ∧ toReal 33.5 - toReal 26.8 ≤ toReal 6.7 ∧
      0 ∉ (filled 6.7 [(0, (⟨26.8, 0.0⟩ : Vec Float))]).candidates ⟨33.5, 0.0⟩ := by
  refine ⟨by decide +kernel, ?_, by decide +kernel⟩
  obtain ⟨hfar, hnear, hsize⟩ := toReal_coordinates
  rw [hfar, hnear, hsize]
  norm_num

end Grid

end Roadworks
