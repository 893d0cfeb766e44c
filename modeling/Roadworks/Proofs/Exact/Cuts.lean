import Roadworks.Proofs.Exact.Arclength
/-! # Cutting a path is counting from the cut

A path that is cut back at both ends goes through its vertices between the cuts, from the one cut to
the other. Where no vertex lies too near to a cut the constructor keeps all of them, and lengths
along what is left are lengths along the path, counted from the first cut. -/

namespace Roadworks

namespace Polyline

/-! ## Times between cuts -/

variable {f : ℝ → Vec ℝ} {a c d m s t : ℝ} {times : List ℝ}

/-- The cuts with the times between them. -/
noncomputable def cut (s m : ℝ) (times : List ℝ) : List ℝ :=
  s :: (times.filter (fun t => s < t ∧ t < m) ++ [m])

theorem mem_cut : t ∈ cut s m times ↔ t = s ∨ (t ∈ times ∧ s < t ∧ t < m) ∨ t = m := by
  simp [cut]

theorem getLast_cut (s m : ℝ) (times : List ℝ) (h : cut s m times ≠ []) :
    (cut s m times).getLast h = m := by
  simp [cut]

/-- The cuts themselves do not lie between later ones. -/
theorem cut_cut (hsc : s ≤ c) (hdm : d ≤ m) : cut c d (cut s m times) = cut c d times := by
  have hbetween : (times.filter fun t => s < t ∧ t < m).filter (fun t => c < t ∧ t < d) =
      times.filter fun t => c < t ∧ t < d := by
    rw [List.filter_filter]
    refine List.filter_congr fun t _ => ?_
    rw [← Bool.decide_and, decide_eq_decide, and_iff_left_iff_imp]
    exact fun ⟨hct, htd⟩ => ⟨hsc.trans_lt hct, htd.trans_le hdm⟩
  rw [cut, cut, cut, List.filter_cons_of_neg (by simp [hsc.not_gt]), List.filter_append, hbetween,
    List.filter_cons_of_neg (by simp [hdm.not_gt]), List.filter_nil, List.append_nil]

/-- A time that has passed at the first cut does not lie between them. -/
theorem cut_cons_of_le (h : a ≤ s) : cut s m (a :: times) = cut s m times := by
  rw [cut, List.filter_cons_of_neg (by simp [h.not_gt]), cut]

/-- At the first time between them the part between the cuts divides in two. -/
theorem cut_cons_of_lt (hsa : s < a) (ham : a < m) (hlater : ∀ t ∈ times, a < t) :
    cut s m (a :: times) = s :: cut a m times := by
  have hpast : times.filter (fun t => s < t ∧ t < m) = times.filter fun t => a < t ∧ t < m := by
    refine List.filter_congr fun t ht => ?_
    simp [hlater t ht, hsa.trans (hlater t ht)]
  rw [cut, List.filter_cons_of_pos (by simp [hsa, ham]), hpast]
  rfl

theorem cut_of_le (h : ∀ t ∈ times, m ≤ t) : cut s m times = [s, m] := by
  have hnone : times.filter (fun t => s < t ∧ t < m) = [] := by
    refine List.filter_eq_nil_iff.mpr fun t ht => ?_
    simpa using fun _ => h t ht
  rw [cut, hnone, List.nil_append]

/-- A curve that runs straight from time to time runs straight from cut to cut. -/
theorem isChain_cut (h : (a :: times).IsChain (RunsStraight f)) (has : a ≤ s) (hsm : s < m)
    (hm : m ≤ (a :: times).getLast (List.cons_ne_nil _ _)) :
    (cut s m (a :: times)).IsChain (RunsStraight f) := by
  induction times generalizing a s with
  | nil => exact absurd (has.trans_lt hsm) (not_lt.mpr hm)
  | cons b times ih =>
      obtain ⟨hab, hrest⟩ := List.isChain_cons_cons.mp h
      have hlast : m ≤ (b :: times).getLast (List.cons_ne_nil _ _) := by simpa using hm
      have hlater : ∀ t ∈ times, b < t := fun t ht =>
        List.rel_of_pairwise_cons (hrest.imp fun _ _ h => h.lt).pairwise ht
      rw [cut_cons_of_le has]
      rcases le_or_gt b s with hbs | hsb
      · exact ih hrest hbs hsm hlast
      rcases le_or_gt m b with hmb | hbm
      · -- Both cuts lie in the first piece.
        rw [cut_of_le (List.forall_mem_cons.mpr ⟨hmb, fun t ht => hmb.trans (hlater t ht).le⟩)]
        exact .cons_cons (hab.mono has hsm hmb) (.singleton _)
      · -- The first piece is cut once, and the rest begins at its end.
        have hnext := ih hrest le_rfl hbm hlast
        rw [cut_cons_of_le le_rfl] at hnext
        rw [cut_cons_of_lt hsb hbm hlater]
        exact .cons_cons (hab.mono has hsb le_rfl) hnext

/-! ## Times that lie apart -/

/-- No two times lie nearer to each other than two vertices may. -/
def AreApart (times : List ℝ) : Prop := ∀ a ∈ times, ∀ b ∈ times, a < b → vertexGap ≤ b - a

/-- Times lie apart if each one does from the next. -/
theorem areApart_of_isChain (h : times.IsChain fun a b => vertexGap ≤ b - a) : AreApart times := by
  have hgap := vertexGap_pos
  have : Trans (fun a b : ℝ => vertexGap ≤ b - a) (fun a b : ℝ => vertexGap ≤ b - a)
      fun a b : ℝ => vertexGap ≤ b - a := ⟨fun hab hbc => by linarith⟩
  have hboth : times.Pairwise fun a b => vertexGap ≤ |b - a| :=
    h.pairwise.imp fun hab => hab.trans (le_abs_self _)
  intro a ha b hb hab
  have : Std.Symm fun a b : ℝ => vertexGap ≤ |b - a| := ⟨fun a b h => by rwa [abs_sub_comm]⟩
  have happart := hboth.forall ha hb hab.ne
  rwa [abs_of_pos (sub_pos.mpr hab)] at happart

/-- No time lies so near to a cut that the two count as one. -/
structure ClearsCuts (s m : ℝ) (times : List ℝ) : Prop where
  start : ∀ t ∈ times, s < t → vertexGap ≤ t - s
  stop : ∀ t ∈ times, t < m → vertexGap ≤ m - t

theorem areApart_cut (h : AreApart times) (hcuts : ClearsCuts s m times)
    (hsm : vertexGap ≤ m - s) : AreApart (cut s m times) := by
  have hgap := vertexGap_pos
  intro a ha b hb hab
  rcases mem_cut.mp ha with rfl | ⟨ha', hsa, ham⟩ | rfl
  · rcases mem_cut.mp hb with rfl | ⟨hb', _, _⟩ | rfl
    · exact absurd hab (lt_irrefl _)
    · exact hcuts.start b hb' hab
    · exact hsm
  · rcases mem_cut.mp hb with rfl | ⟨hb', _, _⟩ | rfl
    · exact absurd hab hsa.not_gt
    · exact h a ha' b hb' hab
    · exact hcuts.stop a ha' hab
  · rcases mem_cut.mp hb with rfl | ⟨_, _, hbm⟩ | rfl
    · linarith
    · exact absurd hab hbm.not_gt
    · exact absurd hab (lt_irrefl _)

/-- The points that a curve visits at times that lie apart are all vertices of the path. -/
theorem ofPoints_map (h : times.IsChain (RunsStraight f)) (happart : AreApart times) :
    ofPoints (times.map f) = ⟨times.map f⟩ := by
  refine ofPoints_of_isChain ?_
  rw [List.isChain_map]
  refine h.imp_of_mem_imp fun a b ha hb hab => ?_
  rw [hab.dist_ends, not_lt]
  exact happart a ha b hb hab.lt

/-! ## Paths along a curve -/

theorem lengths_map (h : (a :: times).IsChain (RunsStraight f)) :
    (⟨(a :: times).map f⟩ : Polyline ℝ).lengths = (a :: times).map (· - a) := by
  rw [lengths, decimal_zero, lengthsFrom_map h]
  simp

theorem length_map (h : (a :: times).IsChain (RunsStraight f)) :
    (⟨(a :: times).map f⟩ : Polyline ℝ).length =
      (a :: times).getLast (List.cons_ne_nil _ _) - a := by
  rw [length, lengths_map h, List.getLastD_eq_getLast?, List.getLast?_map,
    List.getLast?_eq_some_getLast (List.cons_ne_nil _ _)]
  rfl

theorem sample_map (h : (a :: times).IsChain (RunsStraight f)) (ht : 0 ≤ t)
    (hlast : a + t ≤ (a :: times).getLast (List.cons_ne_nil _ _)) :
    (⟨(a :: times).map f⟩ : Polyline ℝ).sample t = f (a + t) := by
  have hshift := sampleFrom_map (s := 0) h (by linarith : a ≤ a + t) hlast
  rwa [zero_add, add_sub_cancel_left, ← sample_eq_sampleFrom] at hshift

theorem zip_map (h : (a :: times).IsChain (RunsStraight f)) :
    (⟨(a :: times).map f⟩ : Polyline ℝ).points.zip (⟨(a :: times).map f⟩ : Polyline ℝ).lengths =
      (a :: times).map fun t => (f t, t - a) := by
  rw [lengths_map h, List.zip_map']

/-- What is left of a path along a curve goes along the curve from cut to cut. -/
theorem trimmed_map (h : (a :: times).IsChain (RunsStraight f)) (hne : times ≠ []) (hc : 0 ≤ c)
    (hd : 0 ≤ d) (hm : (a :: times).getLast (List.cons_ne_nil _ _) = m) :
    (⟨(a :: times).map f⟩ : Polyline ℝ).trimmed c d =
      if m - d - (a + c) ≤ vertexGap then none
      else some (ofPoints ((cut (a + c) (m - d) (a :: times)).map f)) := by
  have hgap := vertexGap_pos
  have hlength := length_map h
  have hzip := zip_map h
  have hdegenerate : (⟨(a :: times).map f⟩ : Polyline ℝ).isDegenerate = false := by
    have := List.length_pos_iff.mpr hne
    simp only [isDegenerate, List.length_map, List.length_cons, decide_eq_false_iff_not]
    omega
  rw [hm] at hlength
  have hrange : (⟨c, m - a - d⟩ : Interval ℝ).length = m - d - (a + c) := by
    rw [Interval.length]
    ring
  rw [trimmed, decimal_zero, Scalar.max_eq, Scalar.max_eq, max_eq_right hc, max_eq_right hd,
    hlength, hdegenerate, hrange]
  simp only [Bool.false_eq_true, false_or]
  by_cases hshort : m - d - (a + c) ≤ vertexGap
  · rw [if_pos hshort, if_pos hshort]
  · have hstart : (⟨(a :: times).map f⟩ : Polyline ℝ).sample c = f (a + c) :=
      sample_map h hc (by linarith)
    have hstop : (⟨(a :: times).map f⟩ : Polyline ℝ).sample (m - a - d) = f (m - d) := by
      rw [sample_map h (by linarith) (by linarith)]
      congr 1
      ring
    have hbetween : (((a :: times).map fun t => (f t, t - a)).filter
        fun v => c < v.2 ∧ v.2 < m - a - d) =
        ((a :: times).filter fun t => a + c < t ∧ t < m - d).map fun t => (f t, t - a) := by
      rw [List.filter_map]
      refine congrArg (List.map _) (List.filter_congr fun t _ => ?_)
      rw [Function.comp_apply, decide_eq_decide, lt_sub_iff_add_lt', sub_right_comm,
        sub_lt_sub_iff_right]
    rw [if_neg hshort, if_neg hshort, hstart, hstop, hzip, hbetween, List.map_map, cut,
      List.map_cons, List.map_append]
    rfl

/-! ## What is left of a path -/

/-- What the cuts leave of a path is the path between them, with lengths counted from the first
one. -/
structure IsRest (q : Polyline ℝ) (s e : ℝ) (p : Polyline ℝ) : Prop where
  length_eq : p.length = q.length - s - e
  sample_eq : ∀ t, 0 ≤ t → t ≤ p.length → p.sample t = q.sample (s + t)
  keeps_vertices : ∀ v l, (v, l) ∈ q.points.zip q.lengths → s < l → l < q.length - e →
    (v, l - s) ∈ p.points.zip p.lengths
  /-- Further cuts may as well be made at once. -/
  trimmed_eq : ∀ c d, 0 ≤ c → 0 ≤ d → p.trimmed c d = q.trimmed (s + c) (e + d)

theorem isRest_cut {e : ℝ} (h : (a :: times).IsChain (RunsStraight f)) (hne : times ≠ [])
    (hm : (a :: times).getLast (List.cons_ne_nil _ _) = m) (hs : 0 ≤ s) (he : 0 ≤ e)
    (hlong : a + s < m - e) :
    IsRest ⟨(a :: times).map f⟩ s e ⟨(cut (a + s) (m - e) (a :: times)).map f⟩ := by
  have hcut := isChain_cut h (by linarith : a ≤ a + s) hlong (by linarith)
  have hlast := getLast_cut (a + s) (m - e) (a :: times) (List.cons_ne_nil _ _)
  have hlength : (⟨(cut (a + s) (m - e) (a :: times)).map f⟩ : Polyline ℝ).length =
      m - e - (a + s) := (length_map hcut).trans (congrArg (· - (a + s)) hlast)
  have hwhole : (⟨(a :: times).map f⟩ : Polyline ℝ).length = m - a := hm ▸ length_map h
  refine ⟨?_, fun t ht hle => ?_, fun v l hv hsl hle => ?_, fun c d hc hd => ?_⟩
  · rw [hlength, hwhole]
    ring
  · rw [hlength] at hle
    have hrest := sample_map hcut ht (le_of_le_of_eq (by linarith) hlast.symm)
    have hpath := sample_map h (add_nonneg hs ht) (by linarith)
    rw [← add_assoc] at hpath
    exact hrest.trans hpath.symm
  · rw [hwhole] at hle
    rw [zip_map h] at hv
    obtain ⟨t, ht, heq⟩ := List.mem_map.mp hv
    obtain ⟨rfl, rfl⟩ := Prod.mk.inj heq
    have hbetween : t ∈ cut (a + s) (m - e) (a :: times) :=
      mem_cut.mpr (.inr (.inl ⟨ht, by linarith, by linarith⟩))
    refine (zip_map hcut).symm ▸ List.mem_map.mpr ⟨t, hbetween, ?_⟩
    rw [sub_sub]
  · have hfirst : a + s + c = a + (s + c) := by ring
    have hsecond : m - e - d = m - (e + d) := by ring
    have hagain := trimmed_map hcut (by simp) hc hd hlast
    rw [← cut, cut_cut (by linarith) (by linarith), hfirst, hsecond] at hagain
    exact hagain.trans (trimmed_map h hne (add_nonneg hs hc) (add_nonneg he hd) hm).symm

/-! ## Trimming -/

variable {points : List (Vec ℝ)}

theorem isChain_ofPoints (points : List (Vec ℝ)) :
    (ofPoints points).points.IsChain fun a b => vertexGap ≤ a.dist b := by
  cases points with
  | nil => exact .nil
  | cons p rest => exact (isChain_keepApart p rest).imp fun _ _ => not_lt.mp

theorem isProper_ofPoints (points : List (Vec ℝ)) : IsProper (ofPoints points).points :=
  (isChain_ofPoints points).imp fun _ _ => vertexGap_pos.trans_le

theorem isChain_lengths (points : List (Vec ℝ)) :
    (ofPoints points).lengths.IsChain (RunsStraight (ofPoints points).sample) := by
  rw [lengths, decimal_zero, funext (sample_eq_sampleFrom (ofPoints points))]
  exact isChain_sampleFrom (isProper_ofPoints points)

theorem exists_lengths_eq {q : Polyline ℝ} (h : q.isDegenerate = false) :
    ∃ times, q.lengths = 0 :: times ∧ times ≠ [] := by
  obtain ⟨points⟩ := q
  match points with
  | [] => cases h
  | [p] => cases h
  | p :: v :: rest =>
      refine ⟨lengthsFrom (0.0 + p.dist v) (v :: rest), ?_, ?_⟩
      · rw [← decimal_zero]
        rfl
      · cases rest <;> exact List.cons_ne_nil _ _

/-- A path goes through its points at its lengths. -/
theorem map_sample (h : (ofPoints points).isDegenerate = false) :
    (ofPoints points).lengths.map (ofPoints points).sample = (ofPoints points).points := by
  rw [lengths, decimal_zero, funext (sample_eq_sampleFrom (ofPoints points))]
  refine map_sampleFrom (isProper_ofPoints points) fun hnil => ?_
  simp [isDegenerate, hnil] at h

theorem areApart_lengths (h : (ofPoints points).isDegenerate = false) :
    AreApart (ofPoints points).lengths := by
  have hstraight := isChain_lengths points
  have hvertices := isChain_ofPoints points
  rw [← map_sample h, List.isChain_map] at hvertices
  refine areApart_of_isChain (List.isChain_iff_getElem.mpr fun i hi => ?_)
  rw [← (hstraight.getElem i hi).dist_ends]
  exact hvertices.getElem i hi

/-- Trimming is a shift of arc length, and leaves nothing only where no more than the width of a
vertex would remain. -/
theorem trimmed_shifts (points : List (Vec ℝ)) {s e : ℝ}
    (hq : (ofPoints points).isDegenerate = false) (hs : 0 ≤ s) (he : 0 ≤ e) :
    ((ofPoints points).trimmed s e = none ↔ (ofPoints points).length - s - e ≤ vertexGap) ∧
    (vertexGap < (ofPoints points).length - s - e →
      ClearsCuts s ((ofPoints points).length - e) (ofPoints points).lengths →
      ∃ p, (ofPoints points).trimmed s e = some p ∧ (ofPoints points).IsRest s e p) := by
  have hgap := vertexGap_pos
  have happart := areApart_lengths hq
  have hstraight := isChain_lengths points
  obtain ⟨times, hlengths, hne⟩ := exists_lengths_eq hq
  have hlast : (0 :: times).getLast (List.cons_ne_nil _ _) = (ofPoints points).length := by
    rw [length, hlengths, List.getLastD_eq_getLast?, List.getLast?_eq_some_getLast]
    rfl
  have hpath : ofPoints points = ⟨(0 :: times).map (ofPoints points).sample⟩ := by
    rw [← hlengths, map_sample hq]
  rw [hlengths] at hstraight happart ⊢
  have htrimmed := trimmed_map hstraight hne hs he hlast
  rw [← hpath, zero_add, sub_right_comm] at htrimmed
  rw [htrimmed]
  refine ⟨by simp, fun hlong hclear => ?_⟩
  have hrest := isRest_cut hstraight hne hlast hs he (by linarith)
  have hcut := isChain_cut hstraight hs (by linarith : s < (ofPoints points).length - e)
    (by linarith)
  rw [← hpath, zero_add] at hrest
  refine ⟨_, if_neg hlong.not_ge, ?_⟩
  rw [ofPoints_map hcut (areApart_cut happart hclear (by linarith))]
  exact hrest

/-- A path around a corner. -/
def elbow (d : ℝ) : List (Vec ℝ) := [⟨0, 0⟩, ⟨d, 0⟩, ⟨d, d⟩]

theorem dist_elbow :
    (⟨0, 0⟩ : Vec ℝ).dist ⟨10, 0⟩ = 10 ∧ (⟨10, 0⟩ : Vec ℝ).dist ⟨10, 10⟩ = 10 := by
  have hroot : √(100 : ℝ) = 10 :=
    (Real.sqrt_eq_iff_mul_self_eq_of_pos (by norm_num)).mpr (by norm_num)
  norm_num [Vec.dist_eq, hroot]

theorem ofPoints_elbow : ofPoints (elbow 10) = ⟨elbow 10⟩ := by
  refine ofPoints_of_isChain ?_
  norm_num [elbow, dist_elbow, vertexGap]

theorem lengths_elbow : (ofPoints (elbow 10)).lengths = [0, 10, 20] := by
  rw [ofPoints_elbow, lengths, elbow, lengthsFrom, lengthsFrom, lengthsFrom, dist_elbow.1,
    dist_elbow.2, decimal_zero]
  norm_num

theorem trimmed_shifts_elbow : (ofPoints (elbow 10)).isDegenerate = false ∧
    ∃ p, (ofPoints (elbow 10)).trimmed 2 3 = some p ∧ (ofPoints (elbow 10)).IsRest 2 3 p ∧
      p.length = 15 := by
  have hlong : (ofPoints (elbow 10)).isDegenerate = false := by
    rw [ofPoints_elbow]
    rfl
  have hlength : (ofPoints (elbow 10)).length = 20 := by
    rw [length, lengths_elbow]
    rfl
  obtain ⟨_, hrest⟩ := trimmed_shifts (elbow 10) hlong (s := 2) (e := 3) (by norm_num) (by norm_num)
  rw [hlength, lengths_elbow] at hrest
  obtain ⟨p, hp, hshift⟩ := hrest (by norm_num [vertexGap]) ⟨by norm_num [vertexGap],
    by norm_num [vertexGap]⟩
  refine ⟨hlong, p, hp, hshift, ?_⟩
  rw [hshift.length_eq, hlength]
  norm_num

end Polyline

end Roadworks
