import Mathlib.Data.List.Basic
import Roadworks.Network.Cluster
/-! # The pairs that a grid shows to be near

A search inserts the points one after the other, so it compares every point with all points before
it. Which pairs it finds depends on their cells and their distance only. -/

namespace Roadworks

variable {α : Type} [Scalar α]

/-- The test that a search applies to a point `p` and an earlier point `q`: their cells touch, and
`q` lies within the tolerance of `p`. -/
def IsNear (tolerance : α) (q p : Vec α) : Prop :=
  Grid.isBeside ((Grid.empty tolerance).cellOf q) ((Grid.empty tolerance).cellOf p) ∧
    q.dist p ≤ tolerance

namespace Grid

/-- The grid of a list of points, numbered by their positions. -/
def ofPoints (tolerance : α) (points : List (Vec α)) : Grid α :=
  { empty tolerance with
    entries := points.zipIdx.map fun (q, j) => ((empty tolerance).cellOf q, j) }

theorem insert_ofPoints (tolerance : α) (points : List (Vec α)) (p : Vec α) :
    (ofPoints tolerance points).insert points.length p = ofPoints tolerance (points ++ [p]) := by
  simp [ofPoints, insert, List.zipIdx_append, cellOf, cellIndex]

theorem mem_candidates_ofPoints_iff {tolerance : α} {points : List (Vec α)} {p : Vec α} {j : Nat} :
    j ∈ (ofPoints tolerance points).candidates p ↔
      ∃ q, points[j]? = some q ∧
        isBeside ((empty tolerance).cellOf q) ((empty tolerance).cellOf p) := by
  rw [mem_candidates_iff]
  constructor
  · rintro ⟨e, he, hbeside, rfl⟩
    rcases List.mem_map.mp he with ⟨⟨q, i⟩, hq, rfl⟩
    exact ⟨q, List.mem_zipIdx_iff_getElem?.mp hq, hbeside⟩
  · rintro ⟨q, hq, hbeside⟩
    have hmem : (q, j) ∈ points.zipIdx := List.mem_zipIdx_iff_getElem?.mpr hq
    exact ⟨_, List.mem_map_of_mem hmem, hbeside, rfl⟩

end Grid

/-- A search whose grid holds the points of `before` goes on to find every near pair with a later
point among the rest. -/
theorem mem_nearPairsFrom_iff {tolerance : α} {before rest : List (Vec α)} {i j : Nat} :
    (i, j) ∈ nearPairsFrom tolerance (before ++ rest) (.ofPoints tolerance before)
        before.length rest ↔ before.length ≤ i ∧ j < i ∧ ∃ p q, (before ++ rest)[i]? = some p ∧
        (before ++ rest)[j]? = some q ∧ IsNear tolerance q p := by
  -- The grid holds the points of `before`, to which the next point moves over.
  induction rest generalizing before with
  | nil =>
      simp only [nearPairsFrom, List.not_mem_nil, List.append_nil, false_iff]
      rintro ⟨hi, _, p, _, hp, _⟩
      rw [List.getElem?_eq_none hi] at hp
      cases hp
  | cons p rest ih =>
      have hsplit : before ++ p :: rest = (before ++ [p]) ++ rest := by simp
      have hlength : before.length + 1 = (before ++ [p]).length := by simp
      have hp : (before ++ p :: rest)[before.length]? = some p := by simp
      rw [nearPairsFrom, List.mem_append, Grid.insert_ofPoints, hsplit, hlength, ih, ← hsplit,
        ← hlength]
      have hhead : (i, j) ∈ ((Grid.ofPoints tolerance before).near tolerance
            (before ++ p :: rest) p).map (before.length, ·) ↔
          i = before.length ∧ j < i ∧ ∃ q, (before ++ p :: rest)[j]? = some q ∧
            IsNear tolerance q p := by
        simp only [List.mem_map, Prod.mk.injEq, Grid.near, List.mem_filter, Option.any_eq_true,
          decide_eq_true_eq, Grid.mem_candidates_ofPoints_iff, IsNear]
        constructor
        · rintro ⟨j', ⟨⟨q, hq, hbeside⟩, q', hq', hdist⟩, rfl, rfl⟩
          have hj : j' < before.length := (List.getElem?_eq_some_iff.mp hq).1
          rw [List.getElem?_append_left hj, hq] at hq'
          obtain rfl := Option.some.inj hq'
          exact ⟨rfl, hj, q, by rw [List.getElem?_append_left hj, hq], hbeside, hdist⟩
        · rintro ⟨rfl, hj, q, hq, hbeside, hdist⟩
          have hq' := hq
          rw [List.getElem?_append_left hj] at hq'
          exact ⟨j, ⟨⟨q, hq', hbeside⟩, q, hq, hdist⟩, rfl, rfl⟩
      rw [hhead]
      constructor
      · rintro (⟨rfl, hj, q, hq, hnear⟩ | ⟨hi, hj, p', q, hp', hq, hnear⟩)
        · exact ⟨Nat.le_refl _, hj, p, q, hp, hq, hnear⟩
        · exact ⟨Nat.le_of_succ_le hi, hj, p', q, hp', hq, hnear⟩
      · rintro ⟨hi, hj, p', q, hp', hq, hnear⟩
        rcases Nat.eq_or_lt_of_le hi with rfl | hlt
        · rw [hp] at hp'
          obtain rfl := Option.some.inj hp'
          exact .inl ⟨rfl, hj, q, hq, hnear⟩
        · exact .inr ⟨hlt, hj, p', q, hp', hq, hnear⟩

/-- The pairs of a search are a later and an earlier point that are near. -/
theorem mem_nearPairs_iff {tolerance : α} {points : List (Vec α)} {i j : Nat} :
    (i, j) ∈ nearPairs tolerance points ↔
      j < i ∧ ∃ p q, points[i]? = some p ∧ points[j]? = some q ∧ IsNear tolerance q p := by
  have hstart : nearPairs tolerance points =
      nearPairsFrom tolerance ([] ++ points) (.ofPoints tolerance []) ([] : List (Vec α)).length
        points := rfl
  rw [hstart, mem_nearPairsFrom_iff]
  simp

theorem lt_length_of_mem_nearPairs {tolerance : α} {points : List (Vec α)} {i j : Nat}
    (h : (i, j) ∈ nearPairs tolerance points) : j < i ∧ i < points.length := by
  rcases mem_nearPairs_iff.mp h with ⟨hj, p, q, hp, _, _⟩
  exact ⟨hj, (List.getElem?_eq_some_iff.mp hp).1⟩

/-- A search that finds nothing has compared all pairs. -/
theorem nearPairs_eq_nil_iff {tolerance : α} {points : List (Vec α)} :
    nearPairs tolerance points = [] ↔ points.Pairwise fun q p => ¬ IsNear tolerance q p := by
  rw [List.pairwise_iff_getElem, List.eq_nil_iff_forall_not_mem]
  constructor
  · intro h j i hj hi hlt hnear
    exact h (i, j) (mem_nearPairs_iff.mpr ⟨hlt, _, _, List.getElem?_eq_getElem hi,
      List.getElem?_eq_getElem hj, hnear⟩)
  · rintro h ⟨i, j⟩ hmem
    rcases mem_nearPairs_iff.mp hmem with ⟨hlt, p, q, hp, hq, hnear⟩
    rcases List.getElem?_eq_some_iff.mp hp with ⟨hi, rfl⟩
    rcases List.getElem?_eq_some_iff.mp hq with ⟨hj, rfl⟩
    exact h j i hj hi hlt hnear

theorem le_of_mem_nearPairsFrom {tolerance : α} {points rest : List (Vec α)} {g : Grid α} {i : Nat}
    {pair : Nat × Nat} (h : pair ∈ nearPairsFrom tolerance points g i rest) : i ≤ pair.1 := by
  induction rest generalizing g i with
  | nil => exact absurd h List.not_mem_nil
  | cons p rest ih =>
      rw [nearPairsFrom, List.mem_append] at h
      rcases h with h | h
      · obtain ⟨j, _, rfl⟩ := List.mem_map.mp h
        exact Nat.le_refl i
      · exact Nat.le_of_succ_le (ih h)

/-- A search goes through the later points in order. -/
theorem pairwise_nearPairsFrom (tolerance : α) (points rest : List (Vec α)) (g : Grid α) (i : Nat) :
    (nearPairsFrom tolerance points g i rest).Pairwise fun a b => a.1 ≤ b.1 := by
  induction rest generalizing g i with
  | nil => exact .nil
  | cons p rest ih =>
      rw [nearPairsFrom, List.pairwise_append]
      refine ⟨List.pairwise_map.mpr (List.pairwise_of_forall fun _ _ => Nat.le_refl i), ih _ _, ?_⟩
      intro a ha b hb
      obtain ⟨j, _, rfl⟩ := List.mem_map.mp ha
      exact Nat.le_of_succ_le (le_of_mem_nearPairsFrom hb)

/-- Before the later point of the first pair of a search, all points are apart. -/
theorem pairwise_take_of_nearPairs_eq_cons {tolerance : α} {points : List (Vec α)} {i j : Nat}
    {pairs : List (Nat × Nat)} (h : nearPairs tolerance points = (i, j) :: pairs) :
    (points.take i).Pairwise fun q p => ¬ IsNear tolerance q p := by
  rw [List.pairwise_iff_getElem]
  intro b a hb ha hba hnear
  have hmem : (a, b) ∈ nearPairs tolerance points :=
    mem_nearPairs_iff.mpr ⟨hba, _, _, List.getElem?_eq_getElem (by simp at ha; omega),
      List.getElem?_eq_getElem (by simp at hb; omega), by simpa using hnear⟩
  have horder := pairwise_nearPairsFrom tolerance points points (.empty tolerance) 0
  rw [← nearPairs, h, List.pairwise_cons] at horder
  have hlt : a < i := Nat.lt_of_lt_of_le ha (List.length_take_le i points)
  rw [h, List.mem_cons] at hmem
  rcases hmem with heq | hmem
  · exact absurd (Prod.mk.inj heq).1 (Nat.ne_of_lt hlt)
  · exact absurd (horder.1 _ hmem) (Nat.not_le.mpr hlt)

theorem nearPairs_eq_nil_of_sublist {tolerance : α} {few points : List (Vec α)}
    (hsub : few.Sublist points) (h : nearPairs tolerance points = []) :
    nearPairs tolerance few = [] :=
  nearPairs_eq_nil_iff.mpr ((nearPairs_eq_nil_iff.mp h).sublist hsub)

end Roadworks
