import Mathlib.Data.List.Lex
import Mathlib.Data.List.Nodup
import Mathlib.Data.List.Pairwise
import Roadworks.Proofs.Forest.Joining
/-! # The parts of a forest

The sets of a forest, listed by their roots, part the numbers below a bound. Lists that are ordered
in this way are known by which numbers share one of them. -/

namespace Roadworks

/-! ## Lists of lists -/

/-- Both numbers stand in one of the lists. -/
def Share (parts : List (List Nat)) (i j : Nat) : Prop := ∃ c ∈ parts, i ∈ c ∧ j ∈ c

/-- Lists without common numbers, none of them empty, that increase and stand in the order of their
first numbers. -/
structure IsParting (parts : List (List Nat)) : Prop where
  ne_nil : ∀ c ∈ parts, c ≠ []
  pairwise_part : ∀ c ∈ parts, c.Pairwise (· < ·)
  nodup : parts.flatten.Nodup
  pairwise_first : parts.Pairwise fun c d => c.headD 0 < d.headD 0

theorem eq_of_mem_of_mem {parts : List (List Nat)} (h : parts.flatten.Nodup) {c d : List Nat}
    (hc : c ∈ parts) (hd : d ∈ parts) {i : Nat} (hic : i ∈ c) (hid : i ∈ d) : c = d := by
  by_contra hne
  have hsymm : Std.Symm (List.Disjoint : List Nat → List Nat → Prop) :=
    ⟨fun _ _ h _ hb ha => h ha hb⟩
  exact (List.nodup_flatten.mp h).2.forall hc hd hne hic hid

theorem mem_iff_share {parts : List (List Nat)} (h : parts.flatten.Nodup) {c : List Nat}
    (hc : c ∈ parts) {i : Nat} (hi : i ∈ c) (j : Nat) : j ∈ c ↔ Share parts i j := by
  constructor
  · intro hj
    exact ⟨c, hc, hi, hj⟩
  · rintro ⟨d, hd, hid, hjd⟩
    rw [eq_of_mem_of_mem h hc hd hi hid]
    exact hjd

theorem IsParting.mem_of_share {parts parts' : List (List Nat)} (h : IsParting parts)
    (h' : IsParting parts') (hshare : ∀ i j, Share parts i j ↔ Share parts' i j) {c : List Nat}
    (hc : c ∈ parts) : c ∈ parts' := by
  obtain ⟨i, hi⟩ := List.exists_mem_of_ne_nil c (h.ne_nil c hc)
  obtain ⟨d, hd, hid, _⟩ := (hshare i i).mp ⟨c, hc, hi, hi⟩
  have hmem (j : Nat) : j ∈ c ↔ j ∈ d := by
    rw [mem_iff_share h.nodup hc hi, mem_iff_share h'.nodup hd hid, hshare]
  have hperm : c.Perm d :=
    (List.perm_ext_iff_of_nodup (h.pairwise_part c hc).nodup (h'.pairwise_part d hd).nodup).mpr hmem
  have heq : c = d := by
    refine List.Perm.eq_of_pairwise ?_ (h.pairwise_part c hc) (h'.pairwise_part d hd) hperm
    intro a b _ _ hab hba
    omega
  rwa [heq]

theorem IsParting.nodup_parts {parts : List (List Nat)} (h : IsParting parts) : parts.Nodup := by
  refine h.pairwise_first.imp ?_
  rintro c _ hlt rfl
  exact Nat.lt_irrefl _ hlt

/-- A parting is known by which numbers share one of its lists. -/
theorem IsParting.eq_of_share {parts parts' : List (List Nat)} (h : IsParting parts)
    (h' : IsParting parts') (hshare : ∀ i j, Share parts i j ↔ Share parts' i j) :
    parts = parts' := by
  have hperm : parts.Perm parts' := by
    refine (List.perm_ext_iff_of_nodup h.nodup_parts h'.nodup_parts).mpr fun c => ?_
    exact ⟨h.mem_of_share h' hshare, h'.mem_of_share h fun i j => (hshare i j).symm⟩
  refine List.Perm.eq_of_pairwise ?_ h.pairwise_first h'.pairwise_first hperm
  intro c d _ _ hcd hdc
  omega

/-! ## Sorted sets -/

/-- Sets of numbers as lists: each in increasing order, and all in the order of their numbers. -/
def sortSets (sets : List (List Nat)) : List (List Nat) :=
  (sets.map fun c => c.mergeSort).mergeSort fun c d => decide (c ≤ d)

theorem mem_sortSets_iff {sets : List (List Nat)} {c : List Nat} :
    c ∈ sortSets sets ↔ ∃ d ∈ sets, d.mergeSort = c := by
  rw [sortSets, (List.mergeSort_perm _ _).mem_iff, List.mem_map]

theorem share_sortSets_iff {sets : List (List Nat)} {i j : Nat} :
    Share (sortSets sets) i j ↔ Share sets i j := by
  simp only [Share, mem_sortSets_iff]
  constructor
  · rintro ⟨_, ⟨d, hd, rfl⟩, hi, hj⟩
    exact ⟨d, hd, List.mem_mergeSort.mp hi, List.mem_mergeSort.mp hj⟩
  · rintro ⟨d, hd, hi, hj⟩
    exact ⟨_, ⟨d, hd, rfl⟩, List.mem_mergeSort.mpr hi, List.mem_mergeSort.mpr hj⟩

theorem headD_le_headD {c d : List Nat} (hc : c ≠ []) (h : c ≤ d) : c.headD 0 ≤ d.headD 0 := by
  cases c with
  | nil => exact absurd rfl hc
  | cons a c =>
      cases d with
      | nil =>
          rcases h.lt_or_eq with hlt | heq
          · exact absurd hlt (List.not_lt_nil _)
          · cases heq
      | cons b d =>
          rcases h.lt_or_eq with hlt | heq
          · exact List.head_le_of_lt hlt
          · rw [heq]

theorem headD_mem {c : List Nat} (hc : c ≠ []) : c.headD 0 ∈ c := by
  cases c with
  | nil => exact absurd rfl hc
  | cons a c => exact List.mem_cons_self

theorem flatten_sortSets_perm (sets : List (List Nat)) :
    (sortSets sets).flatten.Perm sets.flatten := by
  refine (List.mergeSort_perm _ _).flatten.trans ?_
  induction sets with
  | nil => rfl
  | cons c sets ih => exact (List.mergeSort_perm c _).append ih

theorem pairwise_sortSets (sets : List (List Nat)) : (sortSets sets).Pairwise (· ≤ ·) := by
  have hsorted : (sortSets sets).Pairwise fun c d => decide (c ≤ d) = true := by
    refine List.pairwise_mergeSort ?_ ?_ _
    · intro a b c hab hbc
      simpa using le_trans (of_decide_eq_true hab) (of_decide_eq_true hbc)
    · intro a b
      simpa using le_total a b
  exact hsorted.imp of_decide_eq_true

theorem pairwise_mergeSort_of_nodup {c : List Nat} (h : c.Nodup) :
    c.mergeSort.Pairwise (· < ·) := by
  have hsorted : c.mergeSort.Pairwise fun a b => decide (a ≤ b) = true := by
    refine List.pairwise_mergeSort ?_ ?_ _
    · simp only [decide_eq_true_eq]
      omega
    · simp only [Bool.or_eq_true, decide_eq_true_eq]
      omega
  have hnodup : c.mergeSort.Nodup := (List.mergeSort_perm c _).nodup_iff.mpr h
  refine (hsorted.and hnodup).imp ?_
  rintro a b ⟨hle, hne⟩
  exact Nat.lt_of_le_of_ne (of_decide_eq_true hle) hne

/-- Sorting sets that have nothing in common gives a parting. -/
theorem isParting_sortSets {sets : List (List Nat)} (hne : ∀ c ∈ sets, c ≠ [])
    (hnodup : sets.flatten.Nodup) : IsParting (sortSets sets) := by
  have hflatten : (sortSets sets).flatten.Nodup :=
    (flatten_sortSets_perm sets).nodup_iff.mpr hnodup
  have hne' : ∀ c ∈ sortSets sets, c ≠ [] := by
    intro c hc
    rcases mem_sortSets_iff.mp hc with ⟨d, hd, rfl⟩
    have hlength := (List.mergeSort_perm d fun a b => decide (a ≤ b)).length_eq
    have hpos := List.length_pos_iff.mpr (hne d hd)
    exact List.length_pos_iff.mp (by omega)
  constructor
  case ne_nil => exact hne'
  case pairwise_part =>
    intro c hc
    rcases mem_sortSets_iff.mp hc with ⟨d, hd, rfl⟩
    exact pairwise_mergeSort_of_nodup ((List.nodup_flatten.mp hnodup).1 d hd)
  case nodup => exact hflatten
  case pairwise_first =>
    refine ((pairwise_sortSets sets).and (List.nodup_flatten.mp hflatten).2).imp_of_mem ?_
    rintro c d hc hd ⟨hle, hdisjoint⟩
    refine Nat.lt_of_le_of_ne (headD_le_headD (hne' c hc) hle) fun heq => ?_
    exact hdisjoint (headD_mem (hne' c hc)) (heq ▸ headD_mem (hne' d hd))

/-! ## The sets of a forest -/

namespace DisjointSet

/-- The sets of the numbers below `n`, in the order of their roots. -/
def parts (s : DisjointSet) (n : Nat) : List (List Nat) :=
  (s.leaders n).map fun r => (List.range n).filter fun i => s.root i == r

theorem share_parts_iff {s : DisjointSet} {n i j : Nat} :
    Share (s.parts n) i j ↔ i < n ∧ j < n ∧ s.root i = s.root j := by
  simp only [Share, parts, List.mem_map]
  constructor
  · rintro ⟨_, ⟨r, _, rfl⟩, hi, hj⟩
    simp only [List.mem_filter, List.mem_range, beq_iff_eq] at hi hj
    exact ⟨hi.1, hj.1, hi.2.trans hj.2.symm⟩
  · rintro ⟨hi, hj, hroot⟩
    refine ⟨_, ⟨s.root i, s.root_mem_leaders hi, rfl⟩, ?_, ?_⟩
    · simp [hi]
    · simp [hj, hroot]

/-- The root of a set is its lowest number, so it stands first. -/
theorem head?_part {s : DisjointSet} {n r : Nat} (hr : r ∈ s.leaders n) :
    ((List.range n).filter fun i => s.root i == r).head? = some r := by
  rcases mem_leaders_iff.mp hr with ⟨hlt, hroot⟩
  rw [List.head?_filter, List.find?_range_eq_some]
  refine ⟨by simpa using hroot, List.mem_range.mpr hlt, fun j hj => ?_⟩
  have hle := s.root_le j
  have hne : s.root j ≠ r := by omega
  simpa using hne

theorem isParting_parts (s : DisjointSet) (n : Nat) : IsParting (s.parts n) := by
  have hfirst {r : Nat} (hr : r ∈ s.leaders n) :
      ((List.range n).filter fun i => s.root i == r).headD 0 = r := by
    rw [List.headD_eq_head?_getD, head?_part hr, Option.getD_some]
  constructor
  case ne_nil =>
    intro c hc hnil
    rcases List.mem_map.mp hc with ⟨r, hr, rfl⟩
    have hhead := head?_part hr
    rw [hnil] at hhead
    cases hhead
  case pairwise_part =>
    intro c hc
    rcases List.mem_map.mp hc with ⟨r, _, rfl⟩
    exact List.pairwise_lt_range.filter _
  case nodup =>
    rw [List.nodup_flatten]
    constructor
    · intro c hc
      rcases List.mem_map.mp hc with ⟨r, _, rfl⟩
      exact List.nodup_range.filter _
    · rw [parts, List.pairwise_map]
      refine (s.nodup_leaders n).imp ?_
      intro a b hne i hia hib
      simp only [List.mem_filter, beq_iff_eq] at hia hib
      exact hne (hia.2.symm.trans hib.2)
  case pairwise_first =>
    rw [parts, List.pairwise_map]
    refine (s.pairwise_leaders n).imp_of_mem ?_
    intro a b ha hb hlt
    rwa [hfirst ha, hfirst hb]

theorem flatten_parts_perm (s : DisjointSet) (n : Nat) :
    (s.parts n).flatten.Perm (List.range n) := by
  refine (List.perm_ext_iff_of_nodup (s.isParting_parts n).nodup List.nodup_range).mpr fun i => ?_
  rw [List.mem_flatten, List.mem_range]
  constructor
  · rintro ⟨c, hc, hi⟩
    exact (share_parts_iff.mp ⟨c, hc, hi, hi⟩).1
  · intro hi
    obtain ⟨c, hc, hic, _⟩ : Share (s.parts n) i i := share_parts_iff.mpr ⟨hi, hi, rfl⟩
    exact ⟨c, hc, hic⟩

end DisjointSet

end Roadworks
