import Mathlib.Data.List.Perm.Subperm
import Mathlib.Logic.Relation
import Roadworks.Network.DisjointSet
/-! # Joining sets along pairs

Joining a list of pairs closes the sets of a forest under these pairs, and the roots that remain
are the numbers that are roots of themselves. -/

namespace Roadworks.DisjointSet

open Relation

/-! ## One union -/

theorem size_union_snd (s : DisjointSet) (a b : Nat) :
    (s.union a b).2.parents.size = s.parents.size := by
  have hsize : ((s.find a).2.find b).2.parents.size = s.parents.size := by
    rw [size_find_snd, size_find_snd]
  unfold union
  dsimp only
  split
  · simpa [redirect] using hsize
  · split
    · simpa [redirect] using hsize
    · exact hsize

/-- After a union two numbers have one root if they had one before, or if the union joins their
sets. -/
theorem root_union_snd_eq_iff (s : DisjointSet) {a b : Nat} (ha : a < s.parents.size)
    (hb : b < s.parents.size) (i j : Nat) :
    (s.union a b).2.root i = (s.union a b).2.root j ↔
      s.root i = s.root j ∨ (s.root i = s.root a ∧ s.root j = s.root b) ∨
        (s.root i = s.root b ∧ s.root j = s.root a) := by
  rw [root_union_snd s ha hb, root_union_snd s ha hb]
  split <;> split <;> omega

theorem root_union_snd_of_root_eq (s : DisjointSet) {a b : Nat} (ha : a < s.parents.size)
    (hb : b < s.parents.size) (h : s.root a = s.root b) (i : Nat) :
    (s.union a b).2.root i = s.root i := by
  rw [root_union_snd s ha hb]
  split <;> omega

theorem root_of_size_le {s : DisjointSet} {i : Nat} (h : s.parents.size ≤ i) : s.root i = i := by
  apply root_of_parent_eq
  rw [parent, parentIn, Array.getElem?_eq_none h, Option.getD_none]

/-- Numbers with one root lie on the same side of the end of the forest. -/
theorem lt_size_iff_of_root_eq {s : DisjointSet} {i j : Nat} (h : s.root i = s.root j) :
    i < s.parents.size ↔ j < s.parents.size := by
  have hi := s.root_le i
  have hj := s.root_le j
  have houti (hle : s.parents.size ≤ i) : s.root i = i := root_of_size_le hle
  have houtj (hle : s.parents.size ≤ j) : s.root j = j := root_of_size_le hle
  omega

theorem redirect_of_size_le (s : DisjointSet) {i v : Nat} (h : v ≤ i) (hi : s.parents.size ≤ i) :
    s.redirect i v h = s := by
  cases s with
  | mk parents parent_le => simp [redirect, Array.setIfInBounds_eq_of_size_le hi]

/-- A union with a number outside the forest redirects nothing. -/
theorem root_union_snd_of_not_lt (s : DisjointSet) {a b : Nat}
    (h : ¬ (a < s.parents.size ∧ b < s.parents.size)) (i : Nat) :
    (s.union a b).2.root i = s.root i := by
  have hsize : ((s.find a).2.find b).2.parents.size = s.parents.size := by
    rw [size_find_snd, size_find_snd]
  have hra := s.root_le a
  have hrb := s.root_le b
  have houta (hle : s.parents.size ≤ a) : s.root a = a := root_of_size_le hle
  have houtb (hle : s.parents.size ≤ b) : s.root b = b := root_of_size_le hle
  unfold union
  simp only [find_fst, root_find_snd]
  split
  · rw [redirect_of_size_le _ _ (by omega), root_find_snd, root_find_snd]
  · split
    · rw [redirect_of_size_le _ _ (by omega), root_find_snd, root_find_snd]
    · rw [root_find_snd, root_find_snd]

/-! ## Several unions -/

/-- The numbers of all pairs belong to the forest. -/
def Covers (s : DisjointSet) (pairs : List (Nat × Nat)) : Prop :=
  ∀ p ∈ pairs, p.1 < s.parents.size ∧ p.2 < s.parents.size

/-- A chain of sets and pairs leads from one number to the other. -/
def Linked (s : DisjointSet) (pairs : List (Nat × Nat)) : Nat → Nat → Prop :=
  EqvGen fun i j => s.root i = s.root j ∨ (i, j) ∈ pairs

instance (s : DisjointSet) (pairs : List (Nat × Nat)) : IsEquiv Nat (s.Linked pairs) :=
  inferInstanceAs (IsEquiv Nat (EqvGen _))

theorem size_joinAll_snd (s : DisjointSet) (pairs : List (Nat × Nat)) :
    (s.joinAll pairs).2.parents.size = s.parents.size := by
  induction pairs generalizing s with
  | nil => rfl
  | cons p pairs ih =>
      obtain ⟨a, b⟩ := p
      simp only [joinAll]
      rw [ih, size_union_snd]

theorem Covers.union {s : DisjointSet} {a b : Nat} {pairs : List (Nat × Nat)}
    (h : s.Covers ((a, b) :: pairs)) : (s.union a b).2.Covers pairs := by
  intro p hp
  rw [size_union_snd]
  exact h p (List.mem_cons_of_mem _ hp)

/-- After a union a step within a set is a chain through the pair of that union. -/
theorem linked_union_iff {s : DisjointSet} {a b : Nat} (ha : a < s.parents.size)
    (hb : b < s.parents.size) (pairs : List (Nat × Nat)) (i j : Nat) :
    (s.union a b).2.Linked pairs i j ↔ s.Linked ((a, b) :: pairs) i j := by
  have hstep := root_union_snd_eq_iff s ha hb
  constructor
  · refine EqvGen.eqvGen_le ?_ i j
    rintro x y (hxy | hxy)
    · have edge : s.Linked ((a, b) :: pairs) a b := .rel _ _ (.inr List.mem_cons_self)
      have root {u v : Nat} (huv : s.root u = s.root v) : s.Linked ((a, b) :: pairs) u v :=
        .rel _ _ (.inl huv)
      rcases (hstep x y).mp hxy with hroot | ⟨hx, hy⟩ | ⟨hx, hy⟩
      · exact root hroot
      · exact .trans _ _ _ (.trans _ _ _ (root hx) edge) (root hy.symm)
      · exact .trans _ _ _ (.trans _ _ _ (root hx) (edge.symm _ _)) (root hy.symm)
    · exact .rel _ _ (.inr (List.mem_cons_of_mem _ hxy))
  · refine EqvGen.eqvGen_le ?_ i j
    rintro x y (hxy | hxy)
    · exact .rel _ _ (.inl ((hstep x y).mpr (.inl hxy)))
    · rcases List.mem_cons.mp hxy with heq | hxy
      · rcases Prod.mk.inj heq with ⟨rfl, rfl⟩
        exact .rel _ _ (.inl ((hstep x y).mpr (.inr (.inl ⟨rfl, rfl⟩))))
      · exact .rel _ _ (.inr hxy)

/-- The pairs both of whose numbers belong to the forest. -/
def inside (s : DisjointSet) (pairs : List (Nat × Nat)) : List (Nat × Nat) :=
  pairs.filter fun p => decide (p.1 < s.parents.size) && decide (p.2 < s.parents.size)

theorem mem_inside_iff {s : DisjointSet} {pairs : List (Nat × Nat)} {p : Nat × Nat} :
    p ∈ s.inside pairs ↔ p ∈ pairs ∧ p.1 < s.parents.size ∧ p.2 < s.parents.size := by
  simp [inside]

theorem inside_eq_self {s : DisjointSet} {pairs : List (Nat × Nat)} (h : s.Covers pairs) :
    s.inside pairs = pairs :=
  List.filter_eq_self.mpr fun p hp => by simpa using h p hp

/-- Joining pairs gives two numbers one root exactly when a chain of sets and pairs leads from one
to the other. Pairs that leave the forest join nothing. -/
theorem root_joinAll_snd_eq_iff_inside (s : DisjointSet) (pairs : List (Nat × Nat)) (i j : Nat) :
    (s.joinAll pairs).2.root i = (s.joinAll pairs).2.root j ↔ s.Linked (s.inside pairs) i j := by
  induction pairs generalizing s with
  | nil =>
      have hequiv : Equivalence fun i j => s.root i = s.root j :=
        ⟨fun _ => rfl, Eq.symm, Eq.trans⟩
      simp only [joinAll, Linked, inside, List.filter_nil, List.not_mem_nil, or_false]
      exact hequiv.eqvGen_iff.symm
  | cons p pairs ih =>
      obtain ⟨a, b⟩ := p
      have hrest : (s.union a b).2.inside pairs = s.inside pairs := by
        rw [inside, inside, size_union_snd]
      simp only [joinAll]
      rw [ih, hrest]
      by_cases hab : a < s.parents.size ∧ b < s.parents.size
      · have hcons : s.inside ((a, b) :: pairs) = (a, b) :: s.inside pairs := by
          simp [inside, hab]
        rw [hcons, linked_union_iff hab.1 hab.2]
      · have hcons : s.inside ((a, b) :: pairs) = s.inside pairs := by
          simp only [inside, List.filter_cons]
          simp [hab]
        simp only [hcons, Linked, root_union_snd_of_not_lt s hab]

theorem root_joinAll_snd_eq_iff {s : DisjointSet} {pairs : List (Nat × Nat)}
    (h : s.Covers pairs) (i j : Nat) :
    (s.joinAll pairs).2.root i = (s.joinAll pairs).2.root j ↔ s.Linked pairs i j := by
  rw [root_joinAll_snd_eq_iff_inside, inside_eq_self h]

theorem root_joinAll_snd_eq {s : DisjointSet} {pairs : List (Nat × Nat)} (h : s.Covers pairs)
    {i j : Nat} (hij : s.root i = s.root j) :
    (s.joinAll pairs).2.root i = (s.joinAll pairs).2.root j :=
  (root_joinAll_snd_eq_iff h i j).mpr (.rel _ _ (.inl hij))

/-- Joining pairs reports a change exactly when the numbers of some pair were apart before. -/
theorem joinAll_fst_iff {s : DisjointSet} {pairs : List (Nat × Nat)} (h : s.Covers pairs) :
    (s.joinAll pairs).1 = true ↔ ∃ p ∈ pairs, s.root p.1 ≠ s.root p.2 := by
  induction pairs generalizing s with
  | nil => simp [joinAll]
  | cons p pairs ih =>
      obtain ⟨a, b⟩ := p
      have hab := h (a, b) List.mem_cons_self
      simp only [joinAll, Bool.or_eq_true, union_fst, decide_eq_true_eq]
      by_cases hroot : s.root a = s.root b
      · have hkeep := root_union_snd_of_root_eq s hab.1 hab.2 hroot
        simp [hroot, ih h.union, hkeep]
      · simp [hroot]

/-! ## The numbers that are roots -/

/-- The numbers below `n` that are roots, in increasing order. -/
def leaders (s : DisjointSet) (n : Nat) : List Nat :=
  (List.range n).filter fun i => s.root i == i

theorem mem_leaders_iff {s : DisjointSet} {n i : Nat} :
    i ∈ s.leaders n ↔ i < n ∧ s.root i = i := by
  simp [leaders]

theorem pairwise_leaders (s : DisjointSet) (n : Nat) : (s.leaders n).Pairwise (· < ·) :=
  List.pairwise_lt_range.filter _

theorem nodup_leaders (s : DisjointSet) (n : Nat) : (s.leaders n).Nodup :=
  List.nodup_range.filter _

theorem root_mem_leaders (s : DisjointSet) {n i : Nat} (hi : i < n) : s.root i ∈ s.leaders n :=
  mem_leaders_iff.mpr ⟨Nat.lt_of_le_of_lt (s.root_le i) hi, s.root_root i⟩

/-- Every root stands first where it is its own, so listing roots without repetition lists the
leaders. -/
theorem eraseDups_map_root (s : DisjointSet) (n : Nat) :
    ((List.range n).map s.root).eraseDups = s.leaders n := by
  induction n with
  | zero => rfl
  | succ n ih =>
      rw [List.range_succ, List.map_append, List.eraseDups_append, ih, leaders, leaders,
        List.range_succ, List.filter_append]
      congr 1
      by_cases hroot : s.root n = n
      · have hnew : n ∉ (List.range n).map s.root := by
          intro hmem
          rcases List.mem_map.mp hmem with ⟨i, hi, hin⟩
          have hle := s.root_le i
          have hlt := List.mem_range.mp hi
          omega
        simp only [List.map_cons, List.map_nil, hroot, List.removeAll, List.filter_cons,
          List.elem_eq_mem, hnew, beq_self_eq_true]
        rfl
      · have hold : s.root n ∈ (List.range n).map s.root := by
          have hlt := Nat.lt_of_le_of_ne (s.root_le n) hroot
          exact List.mem_map.mpr ⟨s.root n, List.mem_range.mpr hlt, s.root_root n⟩
        simp only [List.map_cons, List.map_nil, List.removeAll, List.filter_cons, List.elem_eq_mem,
          hold, beq_eq_false_iff_ne.mpr hroot]
        rfl

/-- Where sets are only joined, the leaders that remain were leaders before. -/
theorem leaders_eq_filter {s t : DisjointSet} (h : ∀ i j, s.root i = s.root j → t.root i = t.root j)
    (n : Nat) : t.leaders n = (s.leaders n).filter fun i => t.root i == i := by
  rw [leaders, leaders, List.filter_filter]
  apply List.filter_congr
  intro i _
  have hle := s.root_le i
  have hroot : t.root (s.root i) = t.root i := h _ _ (s.root_root i)
  have hlow := t.root_le (s.root i)
  by_cases ht : t.root i = i
  · have hs : s.root i = i := by omega
    simp [ht, hs]
  · simp [ht]

theorem length_leaders_lt {s t : DisjointSet}
    (h : ∀ i j, s.root i = s.root j → t.root i = t.root j) {n i j : Nat} (hi : i < n) (hj : j < n)
    (hapart : s.root i ≠ s.root j) (hjoined : t.root i = t.root j) :
    (t.leaders n).length < (s.leaders n).length := by
  rw [leaders_eq_filter h, List.length_filter_lt_length_iff_exists]
  have hti : t.root (s.root i) = t.root i := h _ _ (s.root_root i)
  have htj : t.root (s.root j) = t.root j := h _ _ (s.root_root j)
  by_cases hlead : t.root (s.root i) = s.root i
  · refine ⟨s.root j, s.root_mem_leaders hj, ?_⟩
    simp only [beq_iff_eq]
    omega
  · exact ⟨s.root i, s.root_mem_leaders hi, by simpa using hlead⟩

theorem leaders_new (m n : Nat) : (new m).leaders n = List.range n := by
  rw [leaders, List.filter_eq_self]
  intro i _
  simp [root_new]

/-- A union takes the place of one root at most. -/
theorem length_leaders_le_union (s : DisjointSet) {a b : Nat} (ha : a < s.parents.size)
    (hb : b < s.parents.size) (n : Nat) :
    (s.leaders n).length ≤ ((s.union a b).2.leaders n).length + 1 := by
  have hsub : s.leaders n ⊆ max (s.root a) (s.root b) :: (s.union a b).2.leaders n := by
    intro i hi
    obtain ⟨hlt, hroot⟩ := mem_leaders_iff.mp hi
    rw [List.mem_cons, mem_leaders_iff, root_union_snd s ha hb, hroot]
    by_cases hmax : i = max (s.root a) (s.root b)
    · exact .inl hmax
    · exact .inr ⟨hlt, if_neg hmax⟩
  exact (List.subperm_of_subset (s.nodup_leaders n) hsub).length_le

theorem length_leaders_le_joinAll {s : DisjointSet} {pairs : List (Nat × Nat)}
    (h : s.Covers pairs) (n : Nat) :
    (s.leaders n).length ≤ ((s.joinAll pairs).2.leaders n).length + pairs.length := by
  induction pairs generalizing s with
  | nil => exact Nat.le_refl _
  | cons p pairs ih =>
      obtain ⟨a, b⟩ := p
      have hab : a < s.parents.size ∧ b < s.parents.size := h (a, b) List.mem_cons_self
      have hone := s.length_leaders_le_union hab.1 hab.2 n
      have hrest := ih h.union
      change _ ≤ (((s.union a b).2.joinAll pairs).2.leaders n).length + (pairs.length + 1)
      omega

end Roadworks.DisjointSet
