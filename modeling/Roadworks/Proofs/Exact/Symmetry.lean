import Roadworks.Proofs.Exact.Turning
import Roadworks.Proofs.Exact.Classification
/-! # Intersections look the same from all sides

Headings are cut open at zero, and the gap across the cut is added last. Turning all directions
moves some of the sorted headings from one end of the list to the other, which leaves the gaps as
they are but for their order. So evenness, and with it the kind of an intersection, depends on the
shape of the directions only. -/

namespace Roadworks

open Real

/-! ## Sorted headings -/

/-- The headings of some directions in increasing order. -/
noncomputable def sortedHeadings (l : List (Vec ℝ)) : List ℝ :=
  (l.map Vec.heading).mergeSort fun a b => decide (a ≤ b)

theorem sortedHeadings_perm (l : List (Vec ℝ)) : (sortedHeadings l).Perm (l.map Vec.heading) :=
  List.mergeSort_perm _ _

theorem pairwise_mergeSort_le (l : List ℝ) :
    (l.mergeSort fun a b => decide (a ≤ b)).Pairwise (· ≤ ·) := by
  have hsorted : (l.mergeSort fun a b => decide (a ≤ b)).Pairwise
      fun a b => decide (a ≤ b) = true :=
    List.pairwise_mergeSort (by simpa using fun a b c => le_trans) (by simpa using le_total) l
  exact hsorted.imp of_decide_eq_true

namespace JunctionRules

/-! ## Gaps around the turn -/

/-- The gaps between neighbouring headings of a sorted list, and last that across the cut. -/
noncomputable def turnGaps (hs : List ℝ) : List ℝ :=
  gaps hs ++ [hs.headD 0 + Scalar.tau - hs.getLastD 0]

theorem turnGaps_eq (hs : List ℝ) :
    turnGaps hs = gaps hs ++ [hs.headD 0 + 2 * π - hs.getLastD 0] := by
  rw [turnGaps, tau_eq]

theorem gaps_concat {hs : List ℝ} (hne : hs ≠ []) (x : ℝ) :
    gaps (hs ++ [x]) = gaps hs ++ [x - hs.getLastD 0] := by
  induction hs with
  | nil => exact absurd rfl hne
  | cons h hs ih =>
      cases hs with
      | nil => rfl
      | cons h' hs => simpa [gaps] using ih (List.cons_ne_nil h' hs)

theorem getLastD_map_cons (f : ℝ → ℝ) (h : ℝ) (hs : List ℝ) :
    ((h :: hs).map f).getLastD 0 = f ((h :: hs).getLastD 0) := by
  simp only [List.getLastD_eq_getLast?, List.getLast?_map, List.getLast?_cons, Option.map_some,
    Option.getD_some]

/-- The lowest heading can as well be counted as the highest one, a turn later. -/
theorem turnGaps_cons_perm (x : ℝ) (hs : List ℝ) :
    (turnGaps (x :: hs)).Perm (turnGaps (hs ++ [x + 2 * π])) := by
  cases hs with
  | nil => simp [turnGaps_eq, gaps]
  | cons y hs =>
      have hwrap : y + 2 * π - (x + 2 * π) = y - x := by ring
      have hfirst : turnGaps (x :: y :: hs) =
          (y - x) :: (gaps (y :: hs) ++ [x + 2 * π - (y :: hs).getLastD 0]) := by
        simp [turnGaps_eq, gaps]
      have hlast : turnGaps (y :: hs ++ [x + 2 * π]) =
          gaps (y :: hs) ++ [x + 2 * π - (y :: hs).getLastD 0] ++ [y - x] := by
        rw [turnGaps_eq, gaps_concat (List.cons_ne_nil y hs), List.getLastD_concat, ← hwrap]
        rfl
      rw [hfirst, hlast]
      exact (List.perm_append_singleton _ _).symm

theorem turnGaps_append_perm (hs ks : List ℝ) :
    (turnGaps (hs ++ ks)).Perm (turnGaps (ks ++ hs.map (· + 2 * π))) := by
  induction hs generalizing ks with
  | nil => simp
  | cons x hs ih =>
      have hfirst := turnGaps_cons_perm x (hs ++ ks)
      rw [List.append_assoc] at hfirst
      simpa using hfirst.trans (ih (ks ++ [x + 2 * π]))

theorem gaps_map_add (hs : List ℝ) (θ : ℝ) : gaps (hs.map (· + θ)) = gaps hs := by
  induction hs with
  | nil => rfl
  | cons h hs ih =>
      cases hs with
      | nil => rfl
      | cons h' hs => simpa [gaps] using ih

theorem turnGaps_map_add (hs : List ℝ) (θ : ℝ) : turnGaps (hs.map (· + θ)) = turnGaps hs := by
  cases hs with
  | nil => rfl
  | cons h hs =>
      have hwrap (last : ℝ) : h + θ + 2 * π - (last + θ) = h + 2 * π - last := by ring
      rw [turnGaps_eq, turnGaps_eq, gaps_map_add, getLastD_map_cons, List.map_cons, List.headD_cons,
        List.headD_cons, hwrap]

theorem gaps_reverse (hs : List ℝ) (θ : ℝ) :
    gaps (hs.map (θ - ·)).reverse = (gaps hs).reverse := by
  induction hs with
  | nil => rfl
  | cons h hs ih =>
      cases hs with
      | nil => rfl
      | cons h' hs =>
          rw [List.map_cons, List.reverse_cons, gaps_concat (by simp), ih, gaps]
          simp

/-- Counted clockwise there are the same gaps. -/
theorem turnGaps_reverse_perm (hs : List ℝ) (θ : ℝ) :
    (turnGaps (hs.map (θ - ·)).reverse).Perm (turnGaps hs) := by
  have hends (ks : List ℝ) :
      ks.reverse.headD 0 = ks.getLastD 0 ∧ ks.reverse.getLastD 0 = ks.headD 0 := by
    simp [List.getLastD_eq_getLast?]
  have hwrap : (hs.map (θ - ·)).getLastD 0 + 2 * π - (hs.map (θ - ·)).headD 0 =
      hs.headD 0 + 2 * π - hs.getLastD 0 := by
    cases hs with
    | nil => rfl
    | cons h hs =>
        rw [getLastD_map_cons, List.map_cons, List.headD_cons, List.headD_cons]
        ring
  rw [turnGaps_eq, turnGaps_eq, gaps_reverse, (hends _).1, (hends _).2, hwrap]
  exact (List.reverse_perm _).append_right _

/-! ## Headings within a turn -/

/-- A sorted list is cut where it passes a bound. -/
theorem exists_cut {hs : List ℝ} (hsorted : hs.Pairwise (· ≤ ·)) (bound : ℝ) :
    ∃ ks ls, hs = ks ++ ls ∧ (∀ x ∈ ks, x < bound) ∧ ∀ x ∈ ls, bound ≤ x := by
  induction hs with
  | nil => exact ⟨[], [], rfl, by simp, by simp⟩
  | cons h hs ih =>
      rcases List.pairwise_cons.mp hsorted with ⟨hle, hsorted⟩
      by_cases hbound : h < bound
      · obtain ⟨ks, ls, rfl, hks, hls⟩ := ih hsorted
        exact ⟨h :: ks, ls, rfl, List.forall_mem_cons.mpr ⟨hbound, hks⟩, hls⟩
      · have hh := not_lt.mp hbound
        exact ⟨[], h :: hs, rfl, by simp,
          List.forall_mem_cons.mpr ⟨hh, fun x hx => hh.trans (hle x hx)⟩⟩

/-- Headings that span less than a turn stay sorted when the first ones follow a turn later. -/
theorem pairwise_append_turned {ks ls : List ℝ} (hsorted : (ks ++ ls).Pairwise (· ≤ ·))
    (hspan : ∀ x ∈ ks ++ ls, ∀ y ∈ ks ++ ls, y < x + 2 * π) :
    (ls ++ ks.map (· + 2 * π)).Pairwise (· ≤ ·) := by
  obtain ⟨hk, hl, _⟩ := List.pairwise_append.mp hsorted
  refine List.pairwise_append.mpr ⟨hl, hk.map _ fun x y hxy => by linarith, ?_⟩
  intro y hy z hz
  obtain ⟨x, hx, rfl⟩ := List.mem_map.mp hz
  exact (hspan x (List.mem_append_left _ hx) y (List.mem_append_right _ hy)).le

/-- Headings that span less than a turn are sorted again, once they are brought into the first turn,
by moving those beyond its end to the front. -/
theorem mergeSort_map_normalizeAngle {hs : List ℝ} (hsorted : hs.Pairwise (· ≤ ·))
    (hspan : ∀ x ∈ hs, ∀ y ∈ hs, y < x + 2 * π) :
    ∃ ks ls, ∃ θ, hs = ks ++ ls ∧
      (hs.map normalizeAngle).mergeSort (fun a b => decide (a ≤ b)) =
        (ls ++ ks.map (· + 2 * π)).map (· + θ) := by
  cases hs with
  | nil => exact ⟨[], [], 0, rfl, by simp⟩
  | cons h hs =>
      -- The turn that the lowest heading lies in ends at the cut.
      let k := ⌊h / (2 * π)⌋
      have hlow : k * (2 * π) ≤ h := (le_div_iff₀ two_pi_pos).mp (Int.floor_le _)
      have hhigh : h < (k + 1) * (2 * π) := (div_lt_iff₀ two_pi_pos).mp (Int.lt_floor_add_one _)
      have hle : ∀ x ∈ h :: hs, h ≤ x :=
        List.forall_mem_cons.mpr ⟨le_rfl, (List.pairwise_cons.mp hsorted).1⟩
      have hlt : ∀ x ∈ h :: hs, x < h + 2 * π := hspan h List.mem_cons_self
      obtain ⟨ks, ls, heq, hks, hls⟩ := exists_cut hsorted ((k + 1) * (2 * π))
      rw [heq] at hsorted hspan hle hlt ⊢
      have hks' : ∀ x ∈ ks, normalizeAngle x = x + 2 * π + -((k + 1) * (2 * π)) := by
        intro x hx
        rw [normalizeAngle_eq_sub k (hlow.trans (hle x (List.mem_append_left _ hx))) (hks x hx)]
        ring
      have hls' : ∀ x ∈ ls, normalizeAngle x = x + -((k + 1) * (2 * π)) := by
        intro x hx
        have hend := hlt x (List.mem_append_right _ hx)
        rw [normalizeAngle_eq_sub (k + 1) (by push_cast; exact hls x hx) (by push_cast; linarith)]
        push_cast
        ring
      refine ⟨ks, ls, -((k + 1) * (2 * π)), rfl, ?_⟩
      have hmap : (ls ++ ks.map (· + 2 * π)).map (· + -((k + 1) * (2 * π))) =
          ls.map normalizeAngle ++ ks.map normalizeAngle := by
        rw [List.map_append, List.map_map, List.map_congr_left hls', List.map_congr_left hks']
        rfl
      rw [List.map_append, mergeSort_eq_of_perm List.perm_append_comm, ← hmap]
      apply List.mergeSort_of_pairwise
      exact (pairwise_append_turned hsorted hspan).map _ fun x y hxy =>
        decide_eq_true (by linarith)

/-- Bringing sorted headings that span less than a turn into the first turn keeps their gaps. -/
theorem turnGaps_normalizeAngle_perm {hs : List ℝ} (hsorted : hs.Pairwise (· ≤ ·))
    (hspan : ∀ x ∈ hs, ∀ y ∈ hs, y < x + 2 * π) :
    (turnGaps ((hs.map normalizeAngle).mergeSort fun a b => decide (a ≤ b))).Perm
      (turnGaps hs) := by
  obtain ⟨ks, ls, θ, rfl, hsort⟩ := mergeSort_map_normalizeAngle hsorted hspan
  rw [hsort, turnGaps_map_add]
  exact (turnGaps_append_perm ks ls).symm

/-! ## Evenness -/

variable {rules : JunctionRules ℝ} {l : List (Vec ℝ)}

theorem magnitude_eq (x : ℝ) : magnitude x = |x| := by
  rw [magnitude, decimal_zero]
  split
  · next h => exact (abs_of_neg h).symm
  · next h => exact (abs_of_nonneg (not_lt.mp h)).symm

theorem isCircular_eq (rules : JunctionRules ℝ) (l : List (Vec ℝ)) :
    rules.isCircular l = (turnGaps (sortedHeadings l)).all fun gap =>
      decide (|gap - 2 * π / l.length| ≤ Scalar.radians rules.circularTolerance) := by
  have hlength : (sortedHeadings l).length = l.length := by simp [sortedHeadings]
  rw [isCircular, ← sortedHeadings, hlength, turnGaps_eq, tau_eq, decimal_zero]
  simp only [magnitude_eq]

theorem abs_heading_sub_lt (v w : Vec ℝ) : |v.heading - w.heading| < 2 * π := by
  have hv : 0 ≤ v.heading ∧ v.heading < 2 * π := ⟨v.heading_nonneg, v.heading_lt⟩
  have hw : 0 ≤ w.heading ∧ w.heading < 2 * π := ⟨w.heading_nonneg, w.heading_lt⟩
  rw [abs_lt]
  constructor <;> linarith

/-- A map of the plane keeps evenness when it moves all headings by a map of the line that keeps
distances, and keeps the gaps of the sorted headings. -/
theorem isCircular_map {f : Vec ℝ → Vec ℝ} {g : ℝ → ℝ} {hs : List ℝ}
    (hheading : ∀ v ∈ l, (f v).heading = normalizeAngle (g v.heading))
    (hdist : ∀ x y, |g x - g y| = |x - y|) (hperm : hs.Perm ((sortedHeadings l).map g))
    (hsorted : hs.Pairwise (· ≤ ·)) (hgaps : (turnGaps hs).Perm (turnGaps (sortedHeadings l))) :
    rules.isCircular (l.map f) = rules.isCircular l := by
  have hmoved : hs.Perm ((l.map Vec.heading).map g) :=
    hperm.trans ((sortedHeadings_perm l).map g)
  have hheadings : ((l.map f).map Vec.heading).Perm (hs.map normalizeAngle) := by
    refine List.Perm.trans (.of_eq ?_) (hmoved.map normalizeAngle).symm
    simpa using hheading
  have hspan : ∀ x ∈ hs, ∀ y ∈ hs, y < x + 2 * π := by
    intro x hx y hy
    obtain ⟨_, hv, rfl⟩ := List.mem_map.mp (hmoved.mem_iff.mp hx)
    obtain ⟨_, hw, rfl⟩ := List.mem_map.mp (hmoved.mem_iff.mp hy)
    obtain ⟨v, _, rfl⟩ := List.mem_map.mp hv
    obtain ⟨w, _, rfl⟩ := List.mem_map.mp hw
    have hlt := abs_heading_sub_lt w v
    rw [← hdist, abs_lt] at hlt
    linarith [hlt.2]
  have hsame : (turnGaps (sortedHeadings (l.map f))).Perm (turnGaps (sortedHeadings l)) := by
    rw [sortedHeadings, mergeSort_eq_of_perm hheadings]
    exact (turnGaps_normalizeAngle_perm hsorted hspan).trans hgaps
  rw [isCircular_eq, isCircular_eq, List.length_map, hsame.all_eq]

theorem isCircular_rotate (θ : ℝ) (hne : ∀ v ∈ l, v ≠ 0) :
    rules.isCircular (l.map (Vec.rotate θ)) = rules.isCircular l := by
  refine isCircular_map (g := (· + θ)) (fun v hv => Vec.heading_rotate θ (hne v hv)) ?_ (.refl _)
    ?_ (.of_eq (turnGaps_map_add _ θ))
  · intro x y
    rw [add_sub_add_right_eq_sub]
  · exact (pairwise_mergeSort_le _).map _ fun x y hxy => by linarith

theorem isCircular_reflect (φ : ℝ) (hne : ∀ v ∈ l, v ≠ 0) :
    rules.isCircular (l.map (Vec.reflect φ)) = rules.isCircular l := by
  refine isCircular_map (g := (φ + φ - ·)) (fun v hv => Vec.heading_reflect φ (hne v hv)) ?_
    (List.reverse_perm _) ?_ (turnGaps_reverse_perm _ _)
  · intro x y
    rw [sub_sub_sub_cancel_left, abs_sub_comm]
  · rw [List.pairwise_reverse]
    exact (pairwise_mergeSort_le _).map _ fun x y hxy => by linarith

/-! ## Kinds -/

/-- A map of the plane that keeps evenness and angles keeps the kind of an intersection. -/
theorem classify_map {f : Vec ℝ → Vec ℝ} (hdot : ∀ v w, (f v).dot (f w) = v.dot w)
    (hcircular : rules.isCircular (l.map f) = rules.isCircular l) :
    rules.classify (l.map f) = rules.classify l := by
  unfold classify
  rw [List.length_map, hcircular]
  split
  · rfl
  · split
    · rfl
    · match l with
      | [v, w] => simp [isPass, Vec.angleTo_eq_of_dot_eq hdot]
      | [] | [_] | [_, _, _] | [_, _, _, _] | _ :: _ :: _ :: _ :: _ :: _ => rfl

/-- The kind of an intersection and the evenness of its directions do not depend on the order of the
roads, nor on where heading zero falls among them, nor on the side that they are seen from. -/
theorem classify_symmetric (rules : JunctionRules ℝ) (hunit : ∀ v ∈ l, v.norm = 1) :
    (∀ m, l.Perm m → rules.classify m = rules.classify l) ∧
      (∀ θ, rules.classify (l.map (Vec.rotate θ)) = rules.classify l ∧
        rules.isCircular (l.map (Vec.rotate θ)) = rules.isCircular l) ∧
      ∀ φ, rules.classify (l.map (Vec.reflect φ)) = rules.classify l ∧
        rules.isCircular (l.map (Vec.reflect φ)) = rules.isCircular l := by
  have hne : ∀ v ∈ l, v ≠ 0 := by
    intro v hv hzero
    have hnorm := hunit v hv
    simp [hzero, Vec.norm_eq] at hnorm
  refine ⟨fun m hm => (classify_perm hm).symm, fun θ => ⟨?_, isCircular_rotate θ hne⟩,
    fun φ => ⟨?_, isCircular_reflect φ hne⟩⟩
  · exact classify_map (Vec.dot_rotate θ) (isCircular_rotate θ hne)
  · exact classify_map (Vec.dot_reflect φ) (isCircular_reflect φ hne)

/-- Roads to the four points of the compass. -/
noncomputable def compass : List (Vec ℝ) := [⟨1, 0⟩, ⟨0, 1⟩, ⟨-1, 0⟩, ⟨0, -1⟩]

theorem norm_compass : ∀ v ∈ compass, v.norm = 1 := by
  simp [compass, Vec.norm_eq]

theorem map_heading_compass : compass.map Vec.heading = [0, π / 2, π, 3 * π / 2] := by
  have hpi := pi_pos
  have heast : Complex.arg ⟨1, 0⟩ = 0 := Complex.arg_one
  have hnorth : Complex.arg ⟨0, 1⟩ = π / 2 := Complex.arg_I
  have hwest : Complex.arg ⟨-1, 0⟩ = π := by
    rw [← Complex.arg_neg_one]
    congr 1
    apply Complex.ext <;> simp
  have hsouth : Complex.arg ⟨0, -1⟩ = -(π / 2) := by
    rw [← Complex.arg_neg_I]
    congr 1
    apply Complex.ext <;> simp
  simp only [compass, List.map_cons, List.map_nil, Vec.heading_eq, heast, hnorth, hwest, hsouth]
  rw [normalizeAngle_eq_sub 0 (by simp) (by simpa using hpi),
    normalizeAngle_eq_sub 0 (by simp; positivity) (by simp; linarith),
    normalizeAngle_eq_sub 0 (by simp; positivity) (by simp; linarith),
    normalizeAngle_eq_sub (-1) (by simp; linarith) (by simp; linarith)]
  norm_num
  ring

/-- Rules under which roads around an island form a roundabout. -/
noncomputable def islandRules : JunctionRules ℝ := { default with roundaboutRadius := some 12 }

theorem isCircular_compass : islandRules.isCircular compass = true := by
  have hsorted : sortedHeadings compass = [0, π / 2, π, 3 * π / 2] := by
    rw [sortedHeadings, map_heading_compass]
    apply List.mergeSort_of_pairwise
    have hpi := pi_pos
    have hle : (0 ≤ π / 2 ∧ 0 ≤ π ∧ 0 ≤ 3 * π / 2) ∧ (0 ≤ π ∧ π / 2 ≤ 3 * π / 2) ∧
        π ≤ 3 * π / 2 :=
      ⟨⟨by linarith, by linarith, by linarith⟩, ⟨by linarith, by linarith⟩, by linarith⟩
    simpa using hle
  have hgaps : turnGaps [0, π / 2, π, 3 * π / 2] = List.replicate 4 (π / 2) := by
    have hgap : π - π / 2 = π / 2 ∧ 3 * π / 2 - π = π / 2 ∧ 2 * π - 3 * π / 2 = π / 2 :=
      ⟨by ring, by ring, by ring⟩
    simpa [turnGaps_eq, gaps, List.replicate] using hgap
  have heven : π / 2 - 2 * π / compass.length = 0 := by
    simp [compass]
    ring
  have htolerance : 0 ≤ Scalar.radians islandRules.circularTolerance := by
    have hpi := pi_pos
    simp only [Scalar.radians, islandRules, default, Scalar.pi]
    positivity
  rw [isCircular_eq, hsorted, hgaps]
  simp [heven, htolerance]

/-- The compass is a roundabout also when west is where east was, seen from below, and listed from
the last road to the first. -/
theorem classify_compass_moved :
    islandRules.classify (compass.map (Vec.rotate π)) = some .roundabout ∧
      islandRules.classify (compass.map (Vec.reflect (π / 8))) = some .roundabout ∧
      islandRules.classify compass.reverse = some .roundabout := by
  have hkind : islandRules.classify compass = some .roundabout := by
    unfold classify
    rw [if_neg (by decide), if_pos ⟨rfl, by decide, isCircular_compass⟩]
  obtain ⟨hperm, hrotate, hreflect⟩ := classify_symmetric islandRules norm_compass
  refine ⟨?_, ?_, ?_⟩
  · rw [(hrotate _).1, hkind]
  · rw [(hreflect _).1, hkind]
  · rw [hperm _ (List.reverse_perm _).symm, hkind]

end JunctionRules

end Roadworks
