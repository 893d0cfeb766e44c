/-!
A forest that keeps numbers in disjoint sets. Every number points at one that is not larger, so the
root of a tree is the lowest number in it and following the pointers ends.
-/

namespace Roadworks

/-- What a number points at; one outside the forest points at itself. -/
def parentIn (parents : Array Nat) (i : Nat) : Nat := parents[i]?.getD i

/-- Numbers with their parents, none of which is larger than the number itself. -/
structure DisjointSet where
  parents : Array Nat
  parent_le : ∀ i, parentIn parents i ≤ i

namespace DisjointSet

/-- What a number points at. -/
def parent (s : DisjointSet) (i : Nat) : Nat := parentIn s.parents i

theorem parentIn_set (parents : Array Nat) (i v j : Nat) :
    parentIn (parents.setIfInBounds i v) j =
      if i = j ∧ i < parents.size then v else parentIn parents j := by
  unfold parentIn
  rw [Array.getElem?_setIfInBounds]
  by_cases hij : i = j
  · subst hij
    by_cases hi : i < parents.size <;> simp [hi]
  · simp [hij]

/-- The sets of the numbers below `n`, each on its own. -/
def new (n : Nat) : DisjointSet where
  parents := Array.range n
  parent_le i := by
    unfold parentIn
    by_cases hi : i < n <;> simp [hi]

/-- Points a number at one that is not larger. -/
def redirect (s : DisjointSet) (i v : Nat) (h : v ≤ i) : DisjointSet where
  parents := s.parents.setIfInBounds i v
  parent_le j := by
    rw [parentIn_set]
    split
    · next hj => omega
    · exact s.parent_le j

/-- Points a number at the parent of its parent, so that later searches are shorter. -/
def halve (s : DisjointSet) (i : Nat) : DisjointSet :=
  s.redirect i (s.parent (s.parent i)) (Nat.le_trans (s.parent_le _) (s.parent_le i))

theorem parent_halve_lt (s : DisjointSet) {i : Nat} (h : s.parent i ≠ i) :
    (s.halve i).parent i < i := by
  have hle : s.parent i ≤ i := s.parent_le i
  have hsecond : s.parent (s.parent i) ≤ s.parent i := s.parent_le _
  unfold halve redirect parent at *
  simp only [parentIn_set, true_and]
  split <;> omega

theorem parent_lt (s : DisjointSet) {i : Nat} (h : s.parent i ≠ i) : s.parent i < i :=
  Nat.lt_of_le_of_ne (s.parent_le i) h

/-- The root of the tree of a number, which is the lowest number of its set. -/
def root (s : DisjointSet) (i : Nat) : Nat := if _h : s.parent i = i then i else s.root (s.parent i)
termination_by i
decreasing_by exact s.parent_lt _h

/-- The root of a number, and the forest in which the way to it has become shorter. -/
def find (s : DisjointSet) (i : Nat) : Nat × DisjointSet :=
  if _h : s.parent i = i then (i, s) else (s.halve i).find ((s.halve i).parent i)
termination_by i
decreasing_by exact s.parent_halve_lt _h

/-- Joins the sets of two numbers, and says whether they were apart. The lower root becomes the
root of both. -/
def union (s : DisjointSet) (a b : Nat) : Bool × DisjointSet :=
  let (ra, s) := s.find a
  let (rb, s) := s.find b
  if h : ra < rb then (true, s.redirect rb ra (Nat.le_of_lt h))
  else if h : rb < ra then (true, s.redirect ra rb (Nat.le_of_lt h))
  else (false, s)

/-- Joins the sets of several pairs, and says whether any of them were apart. -/
def joinAll (s : DisjointSet) : List (Nat × Nat) → Bool × DisjointSet
  | [] => (false, s)
  | (a, b) :: rest =>
    let (joined, s) := s.union a b
    let (more, s) := s.joinAll rest
    (joined || more, s)

/-! ### Roots -/

theorem root_of_parent_eq {s : DisjointSet} {i : Nat} (h : s.parent i = i) : s.root i = i := by
  rw [root, dif_pos h]

theorem root_parent (s : DisjointSet) (i : Nat) : s.root (s.parent i) = s.root i := by
  by_cases h : s.parent i = i
  · rw [h]
  · conv => rhs; rw [root, dif_neg h]

theorem root_le (s : DisjointSet) (i : Nat) : s.root i ≤ i := by
  induction i using Nat.strongRecOn with
  | ind i ih =>
      by_cases h : s.parent i = i
      · exact Nat.le_of_eq (root_of_parent_eq h)
      · rw [← root_parent]
        exact Nat.le_trans (ih _ (s.parent_lt h)) (s.parent_le i)

theorem parent_root (s : DisjointSet) (i : Nat) : s.parent (s.root i) = s.root i := by
  induction i using Nat.strongRecOn with
  | ind i ih =>
      by_cases h : s.parent i = i
      · rw [root_of_parent_eq h, h]
      · rw [← root_parent]
        exact ih _ (s.parent_lt h)

theorem root_root (s : DisjointSet) (i : Nat) : s.root (s.root i) = s.root i :=
  root_of_parent_eq (s.parent_root i)

theorem root_new (n i : Nat) : (new n).root i = i := by
  refine root_of_parent_eq ?_
  unfold parent new parentIn
  by_cases hi : i < n <;> simp [hi]

theorem parent_redirect (s : DisjointSet) {i v : Nat} (h : v ≤ i) (j : Nat) :
    (s.redirect i v h).parent j = if i = j ∧ i < s.parents.size then v else s.parent j :=
  parentIn_set s.parents i v j

/-- Pointing a number at a lower one of its own set keeps all roots. -/
theorem root_redirect_of_root_eq (s : DisjointSet) {i v : Nat} (h : v < i)
    (hroot : s.root v = s.root i) (j : Nat) :
    (s.redirect i v (Nat.le_of_lt h)).root j = s.root j := by
  induction j using Nat.strongRecOn with
  | ind j ih =>
      by_cases hj : i = j ∧ i < s.parents.size
      · have hparent : (s.redirect i v (Nat.le_of_lt h)).parent j = v := by
          rw [parent_redirect, if_pos hj]
        rw [← root_parent, hparent, ih v (hj.1 ▸ h), hroot, hj.1]
      · have hparent : (s.redirect i v (Nat.le_of_lt h)).parent j = s.parent j := by
          rw [parent_redirect, if_neg hj]
        by_cases hfixed : s.parent j = j
        · rw [root_of_parent_eq (hparent.trans hfixed), root_of_parent_eq hfixed]
        · rw [← root_parent, hparent, ih _ (s.parent_lt hfixed), root_parent]

/-- Shortening the way to a root keeps all roots. -/
theorem root_halve (s : DisjointSet) {i : Nat} (h : s.parent i ≠ i) (j : Nat) :
    (s.halve i).root j = s.root j := by
  have hle : s.parent i ≤ i := s.parent_le i
  have hsecond : s.parent (s.parent i) ≤ s.parent i := s.parent_le _
  exact s.root_redirect_of_root_eq (by omega) (by rw [root_parent, root_parent]) j

theorem find_fst (s : DisjointSet) (i : Nat) : (s.find i).1 = s.root i := by
  fun_induction find s i with
  | case1 s i h => rw [root_of_parent_eq h]
  | case2 s i h ih => rw [ih, root_parent, root_halve s h]

theorem root_find_snd (s : DisjointSet) (i j : Nat) : (s.find i).2.root j = s.root j := by
  fun_induction find s i with
  | case1 s i h => rfl
  | case2 s i h ih => rw [ih, root_halve s h]

theorem size_find_snd (s : DisjointSet) (i : Nat) :
    (s.find i).2.parents.size = s.parents.size := by
  fun_induction find s i with
  | case1 s i h => rfl
  | case2 s i h ih => rw [ih]; simp [halve, redirect]

/-- Pointing a root at a lower root joins their two sets. -/
theorem root_redirect_root (s : DisjointSet) {r v : Nat} (h : v < r) (hr : s.parent r = r)
    (hv : s.parent v = v) (hsize : r < s.parents.size) (j : Nat) :
    (s.redirect r v (Nat.le_of_lt h)).root j = if s.root j = r then v else s.root j := by
  have hfixed : (s.redirect r v (Nat.le_of_lt h)).parent v = v := by
    rw [parent_redirect, if_neg (by omega), hv]
  induction j using Nat.strongRecOn with
  | ind j ih =>
      by_cases hj : r = j
      · have hparent : (s.redirect r v (Nat.le_of_lt h)).parent j = v := by
          rw [parent_redirect, if_pos ⟨hj, hsize⟩]
        rw [← root_parent, hparent, root_of_parent_eq hfixed, ← hj, root_of_parent_eq hr, if_pos rfl]
      · have hparent : (s.redirect r v (Nat.le_of_lt h)).parent j = s.parent j := by
          rw [parent_redirect, if_neg (by omega)]
        by_cases hself : s.parent j = j
        · rw [root_of_parent_eq (hparent.trans hself), root_of_parent_eq hself,
            if_neg (Ne.symm hj)]
        · rw [← root_parent, hparent, ih _ (s.parent_lt hself), root_parent]

/-- A union says whether the two numbers had different roots. -/
theorem union_fst (s : DisjointSet) (a b : Nat) :
    (s.union a b).1 = decide (s.root a ≠ s.root b) := by
  unfold union
  simp only [find_fst, root_find_snd]
  split
  · next h => simp; omega
  · split
    · next h => simp; omega
    · next h h' => simp; omega

/-- After a union the sets of the two numbers have the lower of their roots; all others keep
theirs. -/
theorem root_union_snd (s : DisjointSet) {a b : Nat} (ha : a < s.parents.size)
    (hb : b < s.parents.size) (j : Nat) :
    (s.union a b).2.root j =
      if s.root j = max (s.root a) (s.root b) then min (s.root a) (s.root b) else s.root j := by
  have hra := s.root_le a
  have hrb := s.root_le b
  have hroot (i : Nat) : ((s.find a).2.find b).2.parent (s.root i) = s.root i := by
    have := ((s.find a).2.find b).2.parent_root i
    rwa [root_find_snd, root_find_snd] at this
  have hsize : ((s.find a).2.find b).2.parents.size = s.parents.size := by
    rw [size_find_snd, size_find_snd]
  unfold union
  simp only [find_fst, root_find_snd]
  split
  · next h =>
      rw [root_redirect_root _ h (hroot b) (hroot a) (by omega), root_find_snd, root_find_snd,
        Nat.max_eq_right (Nat.le_of_lt h), Nat.min_eq_left (Nat.le_of_lt h)]
  · split
    · next h =>
        rw [root_redirect_root _ h (hroot a) (hroot b) (by omega), root_find_snd, root_find_snd,
          Nat.max_eq_left (Nat.le_of_lt h), Nat.min_eq_right (Nat.le_of_lt h)]
    · next h h' =>
        have heq : s.root a = s.root b := by omega
        rw [root_find_snd, root_find_snd, heq, Nat.max_self, Nat.min_self]
        split <;> simp_all

end DisjointSet

end Roadworks
