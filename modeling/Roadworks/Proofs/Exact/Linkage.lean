import Mathlib.Algebra.BigOperators.Group.Multiset.Basic
import Mathlib.Logic.Relation
import Roadworks.Proofs.Exact.Nearness
/-! # Merging described by the points alone

Which points end up in one cluster, and where its centroid lies, is told here from the points as a
multiset. No order, number or origin occurs, so none of them can matter. -/

namespace Roadworks.Linkage

open Relation Classical

/-- The mean of points. -/
noncomputable def mean (points : Multiset (Vec ℝ)) : Vec ℝ := points.sum / (points.card : ℝ)

/-- The points that are linked with one of them. -/
noncomputable def group (points : Multiset (Vec ℝ)) (links : Vec ℝ → Vec ℝ → Prop) (p : Vec ℝ) :
    Multiset (Vec ℝ) :=
  points.filter (links p)

/-- Points are linked at first when a chain of near points leads from one to the other. -/
def first (tolerance : ℝ) (points : Multiset (Vec ℝ)) : Vec ℝ → Vec ℝ → Prop :=
  EqvGen fun p q => p ∈ points ∧ q ∈ points ∧ IsNear tolerance p q

/-- A pass also links points whose groups have near means. -/
def pass (tolerance : ℝ) (points : Multiset (Vec ℝ)) (links : Vec ℝ → Vec ℝ → Prop) :
    Vec ℝ → Vec ℝ → Prop :=
  EqvGen fun p q => links p q ∨ (p ∈ points ∧ q ∈ points ∧
    IsNear tolerance (mean (group points links p)) (mean (group points links q)))

/-- Points are linked in the end when they are linked after some number of passes. -/
def final (tolerance : ℝ) (points : Multiset (Vec ℝ)) (p q : Vec ℝ) : Prop :=
  ∃ k, (pass tolerance points)^[k] (first tolerance points) p q

/-- The mean of the points that a point is linked with in the end. -/
noncomputable def home (tolerance : ℝ) (points : Multiset (Vec ℝ)) (p : Vec ℝ) : Vec ℝ :=
  mean (group points (final tolerance points) p)

variable {tolerance : ℝ} {points : Multiset (Vec ℝ)} {links : Vec ℝ → Vec ℝ → Prop}

/-! ## Links are equivalences -/

/-- Links divide the points among themselves. -/
structure IsLinkage (points : Multiset (Vec ℝ)) (links : Vec ℝ → Vec ℝ → Prop) : Prop where
  equivalence : Equivalence links
  mem_iff : ∀ p q, links p q → (p ∈ points ↔ q ∈ points)

theorem isLinkage_eqvGen {r : Vec ℝ → Vec ℝ → Prop}
    (h : ∀ p q, r p q → (p ∈ points ↔ q ∈ points)) : IsLinkage points (EqvGen r) := by
  refine ⟨EqvGen.is_equivalence r, fun p q hpq => ?_⟩
  induction hpq with
  | rel p q hpq => exact h p q hpq
  | refl p => exact Iff.rfl
  | symm p q _ ih => exact ih.symm
  | trans p q s _ _ ihp ihq => exact ihp.trans ihq

theorem isLinkage_first (tolerance : ℝ) (points : Multiset (Vec ℝ)) :
    IsLinkage points (first tolerance points) :=
  isLinkage_eqvGen fun _ _ ⟨hp, hq, _⟩ => iff_of_true hp hq

theorem IsLinkage.pass (h : IsLinkage points links) :
    IsLinkage points (pass tolerance points links) := by
  apply isLinkage_eqvGen
  rintro p q (hpq | ⟨hp, hq, _⟩)
  · exact h.mem_iff p q hpq
  · exact iff_of_true hp hq

theorem isLinkage_iterate (tolerance : ℝ) (points : Multiset (Vec ℝ)) (k : ℕ) :
    IsLinkage points ((Linkage.pass tolerance points)^[k] (first tolerance points)) := by
  induction k with
  | zero => exact isLinkage_first tolerance points
  | succ k ih =>
      rw [Function.iterate_succ_apply']
      exact ih.pass

theorem group_ne_zero {p : Vec ℝ} (hp : p ∈ points) (hself : links p p) :
    group points links p ≠ 0 := by
  intro hzero
  have hmem : p ∈ group points links p := Multiset.mem_filter.mpr ⟨hp, hself⟩
  rw [hzero] at hmem
  exact Multiset.notMem_zero p hmem

/-! ## The last pass -/

theorem pass_of_links {p q : Vec ℝ} (h : links p q) : pass tolerance points links p q :=
  .rel _ _ (.inl h)

theorem iterate_mono {k l : ℕ} (hkl : k ≤ l) {p q : Vec ℝ}
    (h : (pass tolerance points)^[k] (first tolerance points) p q) :
    (pass tolerance points)^[l] (first tolerance points) p q := by
  induction l, hkl using Nat.le_induction with
  | base => exact h
  | succ l _ ih =>
      rw [Function.iterate_succ_apply']
      exact pass_of_links ih

/-- A pass that finds no more near means changes nothing. -/
theorem IsLinkage.pass_eq (h : IsLinkage points links)
    (hfar : ∀ p ∈ points, ∀ q ∈ points, IsNear tolerance (mean (group points links p))
      (mean (group points links q)) → links p q) :
    Linkage.pass tolerance points links = links := by
  funext p q
  refine propext ⟨fun hpq => ?_, pass_of_links⟩
  refine h.equivalence.eqvGen_iff.mp (EqvGen.mono ?_ p q hpq)
  rintro p q (hpq | ⟨hp, hq, hnear⟩)
  · exact hpq
  · exact hfar p hp q hq hnear

/-- The links after a pass that changes nothing are those in the end. -/
theorem final_eq_iterate {k : ℕ}
    (h : pass tolerance points ((pass tolerance points)^[k] (first tolerance points)) =
      (pass tolerance points)^[k] (first tolerance points)) :
    final tolerance points = (pass tolerance points)^[k] (first tolerance points) := by
  have hstable (l : ℕ) : (pass tolerance points)^[l + k] (first tolerance points) =
      (pass tolerance points)^[k] (first tolerance points) := by
    rw [Function.iterate_add_apply]
    exact Function.iterate_fixed h l
  funext p q
  refine propext ⟨fun ⟨l, hl⟩ => ?_, fun hk => ⟨k, hk⟩⟩
  rw [← hstable l]
  exact iterate_mono (Nat.le_add_right l k) hl

/-! ## Moved points -/

/-- The links between moved points. -/
def shifted (v : Vec ℝ) (links : Vec ℝ → Vec ℝ → Prop) (p q : Vec ℝ) : Prop :=
  links (p - v) (q - v)

theorem mem_map_add_iff {v p : Vec ℝ} : p ∈ points.map (· + v) ↔ p - v ∈ points := by
  rw [Multiset.mem_map]
  constructor
  · rintro ⟨q, hq, rfl⟩
    rwa [add_sub_cancel_right]
  · intro hp
    exact ⟨p - v, hp, sub_add_cancel p v⟩

theorem mean_map_add {group : Multiset (Vec ℝ)} (h : group ≠ 0) (v : Vec ℝ) :
    mean (group.map (· + v)) = mean group + v := by
  have hcard : (group.card : ℝ) ≠ 0 := by simpa using h
  have hsum : (group.map (· + v)).sum = group.sum + group.card • v := by
    rw [Multiset.sum_map_add, Multiset.map_id', Multiset.map_const', Multiset.sum_replicate]
  rw [mean, mean, Multiset.card_map, hsum]
  ext
  · simp only [Vec.div_x, Vec.add_x, Vec.nsmul_x]
    field_simp
  · simp only [Vec.div_y, Vec.add_y, Vec.nsmul_y]
    field_simp

theorem group_map_add (points : Multiset (Vec ℝ)) (links : Vec ℝ → Vec ℝ → Prop) (v p : Vec ℝ) :
    group (points.map (· + v)) (shifted v links) p = (group points links (p - v)).map (· + v) := by
  rw [group, group, Multiset.filter_map]
  refine congrArg _ (Multiset.filter_congr fun q _ => ?_)
  rw [Function.comp_apply, shifted, add_sub_cancel_right]

theorem eqvGen_shifted (r : Vec ℝ → Vec ℝ → Prop) (v : Vec ℝ) :
    EqvGen (shifted v r) = shifted v (EqvGen r) := by
  funext p q
  refine propext ⟨fun h => ?_, fun h => ?_⟩
  · induction h with
    | rel p q h => exact .rel _ _ h
    | refl p => exact .refl _
    | symm p q _ ih => exact .symm _ _ ih
    | trans p q s _ _ ihp ihq => exact .trans _ _ _ ihp ihq
  · have hmoved {a b : Vec ℝ} (hab : EqvGen r a b) : EqvGen (shifted v r) (a + v) (b + v) := by
      induction hab with
      | rel a b h => exact .rel _ _ (by simpa [shifted] using h)
      | refl a => exact .refl _
      | symm a b _ ih => exact .symm _ _ ih
      | trans a b c _ _ iha ihb => exact .trans _ _ _ iha ihb
    simpa using hmoved h

theorem first_map_add (ht : 0 < tolerance) (points : Multiset (Vec ℝ)) (v : Vec ℝ) :
    first tolerance (points.map (· + v)) = shifted v (first tolerance points) := by
  rw [first, first, ← eqvGen_shifted]
  refine congrArg _ (funext fun p => funext fun q => propext ?_)
  rw [shifted, mem_map_add_iff, mem_map_add_iff,
    ← isNear_add_right_iff ht (q := p - v) (p := q - v) (v := v), sub_add_cancel, sub_add_cancel]

theorem IsLinkage.pass_map_add (h : IsLinkage points links) (ht : 0 < tolerance) (v : Vec ℝ) :
    Linkage.pass tolerance (points.map (· + v)) (shifted v links) =
      shifted v (Linkage.pass tolerance points links) := by
  rw [Linkage.pass, Linkage.pass, ← eqvGen_shifted]
  refine congrArg _ (funext fun p => funext fun q => propext ?_)
  apply or_congr Iff.rfl
  rw [mem_map_add_iff, mem_map_add_iff]
  refine and_congr_right fun hp => and_congr_right fun hq => ?_
  rw [group_map_add, group_map_add, mean_map_add (group_ne_zero hp (h.equivalence.refl _)),
    mean_map_add (group_ne_zero hq (h.equivalence.refl _)), isNear_add_right_iff ht]

theorem iterate_map_add (ht : 0 < tolerance) (points : Multiset (Vec ℝ)) (v : Vec ℝ) (k : ℕ) :
    (pass tolerance (points.map (· + v)))^[k] (first tolerance (points.map (· + v))) =
      shifted v ((pass tolerance points)^[k] (first tolerance points)) := by
  induction k with
  | zero => exact first_map_add ht points v
  | succ k ih =>
      rw [Function.iterate_succ_apply', Function.iterate_succ_apply', ih,
        (isLinkage_iterate tolerance points k).pass_map_add ht]

theorem final_map_add (ht : 0 < tolerance) (points : Multiset (Vec ℝ)) (v : Vec ℝ) :
    final tolerance (points.map (· + v)) = shifted v (final tolerance points) := by
  funext p q
  simp only [final, iterate_map_add ht, shifted]

theorem final_refl (tolerance : ℝ) (points : Multiset (Vec ℝ)) (p : Vec ℝ) :
    final tolerance points p p :=
  ⟨0, (isLinkage_first tolerance points).equivalence.refl p⟩

/-- When all points are moved, the mean that belongs to one of them moves along. -/
theorem home_map_add (ht : 0 < tolerance) (v : Vec ℝ) {p : Vec ℝ} (hp : p ∈ points) :
    home tolerance (points.map (· + v)) (p + v) = home tolerance points p + v := by
  rw [home, final_map_add ht, group_map_add, add_sub_cancel_right,
    mean_map_add (group_ne_zero hp (final_refl tolerance points p)), home]

/-! ## Points that are apart -/

/-- Near points are equal. -/
def IsApart (tolerance : ℝ) (points : Multiset (Vec ℝ)) : Prop :=
  ∀ p ∈ points, ∀ q ∈ points, IsNear tolerance p q → p = q

theorem first_eq_of_isApart (h : IsApart tolerance points) : first tolerance points = Eq := by
  funext p q
  refine propext ⟨fun hpq => ?_, fun hpq => hpq ▸ .refl p⟩
  refine eq_equivalence.eqvGen_iff.mp (EqvGen.mono ?_ p q hpq)
  intro p q ⟨hp, hq, hnear⟩
  exact h p hp q hq hnear

/-- The mean of equal points is that point. -/
theorem mean_group_eq {p : Vec ℝ} (hp : p ∈ points) : mean (group points Eq p) = p := by
  have hgroup : group points Eq p = .replicate (group points Eq p).card p :=
    Multiset.eq_replicate_card.mpr fun q hq => (Multiset.mem_filter.mp hq).2.symm
  have hcard : ((group points Eq p).card : ℝ) ≠ 0 := by
    simpa using group_ne_zero hp rfl
  have hsum : (group points Eq p).sum = (group points Eq p).card • p := by
    conv => lhs; rw [hgroup, Multiset.sum_replicate]
  rw [mean, hsum]
  ext
  · simp [hcard]
  · simp [hcard]

/-- Passes have nothing to do where points are apart. -/
theorem final_eq_of_isApart (h : IsApart tolerance points) : final tolerance points = Eq := by
  have hfirst := first_eq_of_isApart h
  have hlinkage := isLinkage_first tolerance points
  have hstable : pass tolerance points (first tolerance points) = first tolerance points := by
    apply hlinkage.pass_eq
    intro p hp q hq hnear
    rw [hfirst, mean_group_eq hp, mean_group_eq hq] at hnear
    rw [hfirst]
    exact h p hp q hq hnear
  rw [final_eq_iterate (k := 0) hstable]
  exact hfirst

theorem home_eq_of_isApart (h : IsApart tolerance points) {p : Vec ℝ} (hp : p ∈ points) :
    home tolerance points p = p := by
  rw [home, final_eq_of_isApart h, mean_group_eq hp]

end Roadworks.Linkage
