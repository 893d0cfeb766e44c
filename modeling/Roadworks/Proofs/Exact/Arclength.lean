import Roadworks.Proofs.Exact.Mitres
/-! # Paths by arc length

Over the reals a path runs straight at unit speed from one vertex to the next, with its arc length
as time. That says where each of its points is, and a path through points that such a curve visits
in order is the curve itself, counted from the first of them. -/

namespace Roadworks

/-! ## Straight runs -/

/-- From one time to a later one a curve runs straight, at unit speed. -/
structure RunsStraight (f : ℝ → Vec ℝ) (a b : ℝ) : Prop where
  lt : a < b
  exists_direction : ∃ d : Vec ℝ, d.norm = 1 ∧ ∀ t, a ≤ t → t ≤ b → f t = f a + d * (t - a)

namespace RunsStraight

variable {f g : ℝ → Vec ℝ} {a b c d t u : ℝ}

/-- A part of a straight run is one. -/
theorem mono (h : RunsStraight f a b) (hac : a ≤ c) (hcd : c < d) (hdb : d ≤ b) :
    RunsStraight f c d := by
  obtain ⟨v, hv, hf⟩ := h.exists_direction
  refine ⟨hcd, v, hv, fun t hct htd => ?_⟩
  rw [hf t (hac.trans hct) (htd.trans hdb), hf c hac (hcd.le.trans hdb)]
  ext
  · simp
    ring
  · simp
    ring

theorem congr (h : RunsStraight f a b) (heq : ∀ t, a ≤ t → g t = f t) : RunsStraight g a b := by
  obtain ⟨v, hv, hf⟩ := h.exists_direction
  refine ⟨h.lt, v, hv, fun t hat htb => ?_⟩
  rw [heq t hat, heq a le_rfl, hf t hat htb]

/-- As much time passes as way is covered. -/
theorem dist_eq (h : RunsStraight f a b) (hat : a ≤ t) (htb : t ≤ b) (hau : a ≤ u) (hub : u ≤ b) :
    (f t).dist (f u) = |u - t| := by
  obtain ⟨v, hv, hf⟩ := h.exists_direction
  have hway : f u - f t = v * (u - t) := by
    rw [hf t hat htb, hf u hau hub]
    ext
    · simp
      ring
    · simp
      ring
  rw [Vec.dist, hway, Vec.norm_mul, hv, one_mul]

theorem dist_ends (h : RunsStraight f a b) : (f a).dist (f b) = b - a := by
  rw [h.dist_eq le_rfl h.lt.le h.lt.le le_rfl, abs_of_pos (sub_pos.mpr h.lt)]

/-- A point of the run is told by its share of the time. -/
theorem between_eq (h : RunsStraight f a b) (hat : a ≤ t) (htb : t ≤ b) :
    Vec.between (f a) (f b) ((t - a) / (b - a)) = f t := by
  obtain ⟨v, hv, hf⟩ := h.exists_direction
  have hspan : b - a ≠ 0 := (sub_pos.mpr h.lt).ne'
  rw [Vec.between, hf t hat htb, hf b h.lt.le le_rfl]
  ext
  · simp
    field_simp
  · simp
    field_simp

end RunsStraight

/-- The straight way from one point to another, at unit speed. -/
theorem runsStraight_of_between {f : ℝ → Vec ℝ} {p q : Vec ℝ} {s : ℝ} (hpos : 0 < p.dist q)
    (hf : ∀ t, s ≤ t → t ≤ s + p.dist q → f t = Vec.between p q ((t - s) / p.dist q)) :
    RunsStraight f s (s + p.dist q) := by
  have hstart : f s = p := by
    rw [hf s le_rfl (by linarith), sub_self, zero_div, Vec.between_zero]
  have hne : q - p ≠ 0 := sub_ne_zero.mpr (Vec.dist_pos_iff.mp hpos).symm
  refine ⟨by linarith, (q - p).unit, Vec.norm_unit hne, fun t hst htb => ?_⟩
  rw [hf t hst htb, hstart, Vec.between, Vec.unit_eq, ← Vec.dist]
  ext
  · simp
    ring
  · simp
    ring

namespace Polyline

/-! ## Points by length -/

/-- The point at length `t` of a path whose first vertex is at `s`. -/
def sampleFrom {α : Type} [Scalar α] (s : α) (points : List (Vec α)) (t : α) : Vec α :=
  let passed := ((lengthsFrom s points).takeWhile fun l => decide (l ≤ t)).length
  match (piecesFrom s points)[min (passed - 1) ((piecesFrom s points).length - 1)]? with
  | some piece => piece.sample t
  | none => points.headD .zero

theorem sample_eq_sampleFrom (p : Polyline ℝ) (t : ℝ) : p.sample t = sampleFrom 0 p.points t := by
  rw [← decimal_zero]
  rfl

variable {p q r : Vec ℝ} {s t : ℝ} {rest points : List (Vec ℝ)}

/-- A point of a piece is told by its share of the length. -/
theorem piece_sample (hst : s ≤ t) (hts : t ≤ s + p.dist q) :
    (⟨⟨s, s + p.dist q⟩, p, q⟩ : Piece ℝ).sample t = Vec.between p q ((t - s) / p.dist q) := by
  have hspan : (⟨s, s + p.dist q⟩ : Interval ℝ).length = p.dist q := by
    rw [Interval.length, add_sub_cancel_left]
  have hle : t - s ≤ p.dist q := by linarith
  have hnonneg : 0 ≤ t - s := sub_nonneg.mpr hst
  rw [Piece.sample, hspan, decimal_zero, decimal_one,
    Scalar.clamp_of_mem (div_nonneg hnonneg (hnonneg.trans hle))
      (div_le_one_of_le₀ hle (hnonneg.trans hle)), Vec.between]

/-- Before the second vertex, the first piece has the point. -/
theorem sampleFrom_of_lt (hst : s ≤ t) (h : t < s + p.dist q) :
    sampleFrom s (p :: q :: rest) t = Vec.between p q ((t - s) / p.dist q) := by
  have hfirst : min
      (((lengthsFrom s (p :: q :: rest)).takeWhile fun l => decide (l ≤ t)).length - 1)
      ((piecesFrom s (p :: q :: rest)).length - 1) = 0 := by
    have hstop : ¬ s + p.dist q ≤ t := not_le.mpr h
    cases rest <;> simp [lengthsFrom, hst, hstop]
  rw [← piece_sample hst h.le, sampleFrom]
  simp only [hfirst]
  rfl

/-- From the second vertex on, the rest of the path has the point. -/
theorem sampleFrom_of_le (hpos : 0 < p.dist q) (h : s + p.dist q ≤ t) :
    sampleFrom s (p :: q :: rest) t = sampleFrom (s + p.dist q) (q :: rest) t := by
  cases rest with
  | nil =>
      -- Beyond its end the only piece stays at its end.
      have hshare : 1 ≤ (t - s) / p.dist q := (one_le_div hpos).mpr (by linarith)
      have hclamp : Scalar.clamp 0.0 1.0 ((t - s) / p.dist q) = 1 := by
        rw [Scalar.clamp, decimal_zero, decimal_one, if_neg (by linarith)]
        split
        · rfl
        · linarith
      have hfirst : (piecesFrom s [p, q]).length - 1 = 0 := rfl
      rw [sampleFrom]
      simp only [hfirst, Nat.min_zero]
      change p + (q - p) * Scalar.clamp 0.0 1.0 ((t - s) / (s + p.dist q - s)) = q
      rw [add_sub_cancel_left, hclamp]
      ext <;> simp
  | cons r rest =>
      have hs : s ≤ t := by linarith
      rw [sampleFrom, sampleFrom]
      rw [lengthsFrom, List.takeWhile_cons, if_pos (decide_eq_true hs), List.length_cons]
      have hpassed : 0 < ((lengthsFrom (s + p.dist q) (q :: r :: rest)).takeWhile
          fun l => decide (l ≤ t)).length := by
        rw [lengthsFrom, List.takeWhile_cons, if_pos (decide_eq_true h)]
        exact Nat.succ_pos _
      generalize ((lengthsFrom (s + p.dist q) (q :: r :: rest)).takeWhile
        fun l => decide (l ≤ t)).length = m at hpassed ⊢
      have hpieces : piecesFrom s (p :: q :: r :: rest) =
          ⟨⟨s, s + p.dist q⟩, p, q⟩ :: piecesFrom (s + p.dist q) (q :: r :: rest) := rfl
      obtain ⟨n, hn⟩ : ∃ n, (piecesFrom (s + p.dist q) (q :: r :: rest)).length = n + 1 :=
        ⟨_, length_piecesFrom _ _⟩
      have hindex : min (m + 1 - 1) (n + 1 + 1 - 1) = min (m - 1) (n + 1 - 1) + 1 := by omega
      obtain ⟨piece, hpiece⟩ : ∃ piece, (piecesFrom (s + p.dist q) (q :: r :: rest))[min (m - 1)
          (n + 1 - 1)]? = some piece :=
        ⟨_, List.getElem?_eq_getElem (by rw [hn]; omega)⟩
      rw [hpieces, List.length_cons, hn, hindex, List.getElem?_cons_succ, hpiece]

/-! ## A path as a curve -/

/-- No two vertices next to each other coincide. -/
def IsProper (points : List (Vec ℝ)) : Prop := points.IsChain fun a b => 0 < a.dist b

theorem sampleFrom_self (h : IsProper (p :: rest)) : sampleFrom s (p :: rest) s = p := by
  cases rest with
  | nil => rfl
  | cons q rest =>
      have hpos := (List.isChain_cons_cons.mp h).1
      rw [sampleFrom_of_lt le_rfl (by linarith), sub_self, zero_div, Vec.between_zero]

theorem le_of_mem_lengthsFrom (s : ℝ) (points : List (Vec ℝ)) :
    ∀ l ∈ lengthsFrom s points, s ≤ l := by
  fun_induction lengthsFrom s points with
  | case1 s => simp
  | case2 s p => simp
  | case3 s p q rest ih =>
      have hdist : 0 ≤ p.dist q := Vec.norm_nonneg _
      refine List.forall_mem_cons.mpr ⟨le_rfl, fun l hl => ?_⟩
      linarith [ih l hl]

/-- A path runs straight from the length of each vertex to that of the next one. -/
theorem isChain_sampleFrom (h : IsProper points) :
    (lengthsFrom s points).IsChain (RunsStraight (sampleFrom s points)) := by
  fun_induction lengthsFrom s points with
  | case1 s => exact .singleton _
  | case2 s p => exact .singleton _
  | case3 s p q rest ih =>
      obtain ⟨hpos, hrest⟩ := List.isChain_cons_cons.mp h
      have hstraight : RunsStraight (sampleFrom s (p :: q :: rest)) s (s + p.dist q) := by
        refine runsStraight_of_between hpos fun t hst htb => ?_
        rcases htb.lt_or_eq with hlt | rfl
        · exact sampleFrom_of_lt hst hlt
        · rw [sampleFrom_of_le hpos le_rfl, sampleFrom_self hrest, add_sub_cancel_left,
            div_self hpos.ne', Vec.between_comm, sub_self, Vec.between_zero]
      have hlater : (lengthsFrom (s + p.dist q) (q :: rest)).IsChain
          (RunsStraight (sampleFrom s (p :: q :: rest))) :=
        (ih hrest).imp_of_mem_imp fun a b ha _ hab =>
          hab.congr fun t hat => sampleFrom_of_le hpos ((le_of_mem_lengthsFrom _ _ a ha).trans hat)
      cases rest with
      | nil => exact .cons_cons hstraight (.singleton _)
      | cons r rest => exact .cons_cons hstraight hlater

/-- A path visits each vertex at its length. -/
theorem map_sampleFrom (h : IsProper points) (hne : points ≠ []) :
    (lengthsFrom s points).map (sampleFrom s points) = points := by
  fun_induction lengthsFrom s points with
  | case1 s => contradiction
  | case2 s p => rfl
  | case3 s p q rest ih =>
      obtain ⟨hpos, hrest⟩ := List.isChain_cons_cons.mp h
      have hlater : (lengthsFrom (s + p.dist q) (q :: rest)).map (sampleFrom s (p :: q :: rest)) =
          (lengthsFrom (s + p.dist q) (q :: rest)).map (sampleFrom (s + p.dist q) (q :: rest)) :=
        List.map_congr_left fun t ht => sampleFrom_of_le hpos (le_of_mem_lengthsFrom _ _ t ht)
      rw [List.map_cons, sampleFrom_self h, hlater, ih hrest (List.cons_ne_nil _ _)]

/-! ## A curve as a path -/

variable {f : ℝ → Vec ℝ} {a : ℝ} {stations : List ℝ}

/-- The path through points that a curve visits takes the lengths from the times. -/
theorem lengthsFrom_map (h : (a :: stations).IsChain (RunsStraight f)) :
    lengthsFrom s ((a :: stations).map f) = (a :: stations).map fun t => s + (t - a) := by
  induction stations generalizing a s with
  | nil => simp [lengthsFrom]
  | cons b stations ih =>
      obtain ⟨hab, hrest⟩ := List.isChain_cons_cons.mp h
      have hnext := ih (s := s + (b - a)) hrest
      rw [List.map_cons] at hnext
      have hsame : ∀ t ∈ b :: stations, s + (b - a) + (t - b) = s + (t - a) := fun t _ => by ring
      rw [List.map_cons, List.map_cons, lengthsFrom, hab.dist_ends, hnext,
        List.map_congr_left hsame, List.map_cons (a := a), sub_self, add_zero]

/-- The path through points that a curve visits is the curve, as long as it lasts. -/
theorem sampleFrom_map (h : (a :: stations).IsChain (RunsStraight f)) {t : ℝ} (hat : a ≤ t)
    (hlast : t ≤ (a :: stations).getLast (List.cons_ne_nil _ _)) :
    sampleFrom s ((a :: stations).map f) (s + (t - a)) = f t := by
  induction stations generalizing a s with
  | nil =>
      obtain rfl : t = a := le_antisymm (by simpa using hlast) hat
      simp [sampleFrom_self (.singleton _ : IsProper [f t])]
  | cons b stations ih =>
      obtain ⟨hab, hrest⟩ := List.isChain_cons_cons.mp h
      rw [List.map_cons, List.map_cons]
      rcases lt_or_ge t b with hlt | hge
      · rw [sampleFrom_of_lt (by linarith) (by rw [hab.dist_ends]; linarith), add_sub_cancel_left,
          hab.dist_ends, hab.between_eq hat hlt.le]
      · rw [sampleFrom_of_le (by rw [hab.dist_ends]; exact sub_pos.mpr hab.lt)
          (by rw [hab.dist_ends]; linarith), hab.dist_ends]
        have hnext := ih (s := s + (b - a)) hrest hge (by simpa using hlast)
        rw [← hnext, List.map_cons]
        congr 1
        ring

end Polyline

end Roadworks
