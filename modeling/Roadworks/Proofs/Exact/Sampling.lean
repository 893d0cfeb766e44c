import Roadworks.Proofs.Exact.Cuts
import Roadworks.Proofs.Scalar.Order
/-! # Points at a length

The lengths of the vertices that have been passed stand before those of the others, also where some
of them are infinite or no numbers, so a search finds where they end, and the piece that begins
there, or the last one, exists. Over the reals a path goes by its arc length: two of its points are
no further apart than the way between them. -/

namespace Roadworks

namespace Polyline

/-! ## The search for a piece -/

section

variable {α : Type} [Scalar α]

/-- The first `passed` lengths are at most `t`, and the others are not. -/
structure IsPassed (lengths : List α) (t : α) (passed : Nat) : Prop where
  le_length : passed ≤ lengths.length
  le_iff : ∀ i (h : i < lengths.length), lengths[i] ≤ t ↔ i < passed

/-- The piece that begins at the last vertex passed, or the one at the end that is nearer. -/
def pieceIndex (p : Polyline α) (passed : Nat) : Nat :=
  min (passed - 1) (max (p.points.length - 1) 1 - 1)

/-- Sampling a path at `t` and taking its direction there come to a result, without looking at a
vertex that the path does not have. -/
structure IsFoundAt (p : Polyline α) (t : α) : Prop where
  empty : p.points = [] → p.sample t = .zero
  single : ∀ v, p.points = [v] → p.sample t = v
  degenerate : p.points.length < 2 → p.derivative t = ⟨1.0, 0.0⟩
  piece : 2 ≤ p.points.length → ∃ passed, IsPassed p.lengths t passed ∧
    ∃ (_ : p.pieceIndex passed + 1 < p.points.length)
      (_ : p.pieceIndex passed + 1 < p.lengths.length),
      p.sample t = p.points[p.pieceIndex passed] +
        (p.points[p.pieceIndex passed + 1] - p.points[p.pieceIndex passed]) *
          Scalar.clamp 0.0 1.0 ((t - p.lengths[p.pieceIndex passed]) /
            (p.lengths[p.pieceIndex passed + 1] - p.lengths[p.pieceIndex passed])) ∧
      p.derivative t =
        (p.points[p.pieceIndex passed + 1] - p.points[p.pieceIndex passed]).unit

variable {lengths : List α} {s t : α}

/-- Where no length that has been passed stands behind one that has not, those at the beginning are
all. -/
theorem isPassed_takeWhile (h : lengths.Pairwise fun a b => b ≤ t → a ≤ t) :
    IsPassed lengths t (lengths.takeWhile fun s => decide (s ≤ t)).length := by
  refine ⟨(List.takeWhile_sublist _).length_le, ?_⟩
  induction lengths with
  | nil => simp
  | cons a lengths ih =>
      obtain ⟨hfirst, hrest⟩ := List.pairwise_cons.mp h
      intro i hi
      by_cases ha : a ≤ t
      · rw [List.takeWhile_cons, if_pos (decide_eq_true ha), List.length_cons]
        cases i with
        | zero => simpa using ha
        | succ i => simpa using ih hrest i (by simpa using hi)
      · rw [List.takeWhile_cons, if_neg (by simpa using ha)]
        cases i with
        | zero => simpa using ha
        | succ i =>
            have hlt : i < lengths.length := by simpa using hi
            have hlater : ¬ lengths[i] ≤ t := fun hle => ha (hfirst _ (List.getElem_mem hlt) hle)
            simpa using hlater

theorem getElem?_lengthsFrom_zero (s : α) (points : List (Vec α)) :
    (lengthsFrom s points)[0]? = some s := by
  match points with
  | [] => rfl
  | [_] => rfl
  | _ :: _ :: _ => rfl

/-- A piece leads from one vertex to the next. -/
theorem getElem?_piecesFrom (s : α) (points : List (Vec α)) {i : Nat}
    (hp : i + 1 < points.length) (hl : i + 1 < (lengthsFrom s points).length) :
    (piecesFrom s points)[i]? = some ⟨⟨(lengthsFrom s points)[i], (lengthsFrom s points)[i + 1]⟩,
      points[i], points[i + 1]⟩ := by
  fun_induction piecesFrom s points generalizing i with
  | case1 => simp at hp
  | case2 => simp at hp
  | case3 s p q rest ih =>
      cases i with
      | zero =>
          have hnext := getElem?_lengthsFrom_zero (s + p.dist q) (q :: rest)
          rw [List.getElem?_eq_some_iff] at hnext
          obtain ⟨_, hnext⟩ := hnext
          simp [lengthsFrom, hnext]
      | succ i =>
          have hl' : i + 1 < (lengthsFrom (s + p.dist q) (q :: rest)).length := by
            simpa [lengthsFrom] using hl
          rw [List.getElem?_cons_succ, ih (by simpa using hp) hl']
          simp [lengthsFrom]

/-- Whatever the search finds, the piece that it leads to is one of the path. -/
theorem getElem?_pieces (p : Polyline α) (passed : Nat) (h : 2 ≤ p.points.length) :
    ∃ (_ : p.pieceIndex passed + 1 < p.points.length)
      (_ : p.pieceIndex passed + 1 < p.lengths.length),
      p.pieces[min (passed - 1) (p.pieces.length - 1)]? =
        some ⟨⟨p.lengths[p.pieceIndex passed], p.lengths[p.pieceIndex passed + 1]⟩,
          p.points[p.pieceIndex passed], p.points[p.pieceIndex passed + 1]⟩ := by
  have hindex : min (passed - 1) (p.pieces.length - 1) = p.pieceIndex passed := by
    rw [length_pieces, pieceIndex, max_eq_left (by omega)]
  have hp : p.pieceIndex passed + 1 < p.points.length := by
    rw [pieceIndex, max_eq_left (by omega)]
    omega
  have hl : p.pieceIndex passed + 1 < p.lengths.length := by
    rw [lengths, length_lengthsFrom]
    omega
  rw [hindex]
  exact ⟨hp, hl, getElem?_piecesFrom 0.0 p.points hp hl⟩

theorem isFoundAt {p : Polyline α} (h : p.lengths.Pairwise fun a b => b ≤ t → a ≤ t) :
    p.IsFoundAt t := by
  have hnone (hshort : p.points.length < 2) : p.pieceAt t = none := by
    rw [pieceAt_eq_none_iff, isDegenerate]
    exact decide_eq_true hshort
  constructor
  case empty =>
    intro hpoints
    rw [sample, hnone (by simp [hpoints]), hpoints]
    rfl
  case single =>
    intro v hpoints
    rw [sample, hnone (by simp [hpoints]), hpoints]
    rfl
  case degenerate =>
    intro hshort
    rw [derivative, hnone hshort]
  case piece =>
    intro hlong
    have hpassed := isPassed_takeWhile h
    obtain ⟨hp, hl, hpiece⟩ := p.getElem?_pieces
      (p.lengths.takeWhile fun s => decide (s ≤ t)).length hlong
    have hat : p.pieceAt t = _ := hpiece
    refine ⟨_, hpassed, hp, hl, ?_, ?_⟩
    · rw [sample, hat]
      rfl
    · rw [derivative, hat]
      rfl

end

/-! ## Lengths in doubles -/

theorem isLength_dist (p q : Vec Float) : Binary64.IsLength (p.dist q) :=
  Binary64.isLength_sqrt _

/-- A later length is reached only where the first one is. -/
theorem le_of_mem_lengthsFrom_of_le {s t : Float} (hs : Binary64.IsLength s)
    (points : List (Vec Float)) : ∀ l ∈ lengthsFrom s points, l ≤ t → s ≤ t := by
  fun_induction lengthsFrom s points with
  | case1 s => simp
  | case2 s p => simp
  | case3 s p q rest ih =>
      refine List.forall_mem_cons.mpr ⟨id, fun l hl hle => ?_⟩
      exact hs.le_of_add_le (isLength_dist p q) (ih (hs.add (isLength_dist p q)) l hl hle)

/-- The lengths that are reached stand before the others. -/
theorem pairwise_lengthsFrom {s : Float} (hs : Binary64.IsLength s) (points : List (Vec Float))
    (t : Float) : (lengthsFrom s points).Pairwise fun a b => b ≤ t → a ≤ t := by
  fun_induction lengthsFrom s points with
  | case1 s => simp
  | case2 s p => simp
  | case3 s p q rest ih =>
      have hnext := hs.add (isLength_dist p q)
      refine List.pairwise_cons.mpr ⟨fun l hl hle => ?_, ih hnext⟩
      exact hs.le_of_add_le (isLength_dist p q) (le_of_mem_lengthsFrom_of_le hnext _ l hl hle)

theorem pairwise_lengths (p : Polyline Float) (t : Float) :
    p.lengths.Pairwise fun a b => b ≤ t → a ≤ t :=
  pairwise_lengthsFrom (.inr (by decide +kernel)) p.points t

end Polyline

/-! ## The way between two points -/

namespace Vec

theorem dist_eq_dist (p q : Vec ℝ) :
    p.dist q = Dist.dist (⟨p.x, p.y⟩ : ℂ) ⟨q.x, q.y⟩ := by
  rw [dist_comm, dist_eq, Complex.dist_eq_re_im]

theorem dist_le_dist_add (p q r : Vec ℝ) : p.dist r ≤ p.dist q + q.dist r := by
  rw [dist_eq_dist, dist_eq_dist, dist_eq_dist]
  exact dist_triangle _ _ _

end Vec

namespace Polyline

variable {f : ℝ → Vec ℝ} {a s t u : ℝ} {times : List ℝ} {p q : Vec ℝ} {rest : List (Vec ℝ)}

/-- A curve that runs straight from time to time covers no more way than time passes. -/
theorem dist_le_of_isChain (h : (a :: times).IsChain (RunsStraight f)) (hat : a ≤ t) (htu : t ≤ u)
    (hlast : u ≤ (a :: times).getLast (List.cons_ne_nil _ _)) : (f t).dist (f u) ≤ u - t := by
  induction times generalizing a t with
  | nil =>
      obtain rfl : t = u := le_antisymm htu (le_trans (by simpa using hlast) hat)
      rw [Vec.dist_self, sub_self]
  | cons b times ih =>
      obtain ⟨hab, hrest⟩ := List.isChain_cons_cons.mp h
      have hlater : u ≤ (b :: times).getLast (List.cons_ne_nil _ _) := by simpa using hlast
      rcases le_total b t with hbt | htb
      · exact ih hrest hbt htu hlater
      rcases le_total u b with hub | hbu
      · rw [hab.dist_eq hat htb (hat.trans htu) hub, abs_of_nonneg (sub_nonneg.mpr htu)]
      · have hfirst : (f t).dist (f b) = b - t := by
          rw [hab.dist_eq hat htb hab.lt.le le_rfl, abs_of_nonneg (sub_nonneg.mpr htb)]
        have hsecond : (f b).dist (f u) ≤ u - b := ih hrest le_rfl hbu hlater
        calc (f t).dist (f u) ≤ (f t).dist (f b) + (f b).dist (f u) := Vec.dist_le_dist_add _ _ _
          _ ≤ b - t + (u - b) := add_le_add hfirst.le hsecond
          _ = u - t := by ring

/-! ## Beyond the ends -/

/-- Before its first vertex a path stays there. -/
theorem sampleFrom_of_le_first (h : IsProper (p :: rest)) (ht : t ≤ s) :
    sampleFrom s (p :: rest) t = p := by
  rcases ht.eq_or_lt with rfl | hlt
  · exact sampleFrom_self h
  cases rest with
  | nil => rfl
  | cons q rest =>
      have hpos : 0 < p.dist q := (List.isChain_cons_cons.mp h).1
      have hshare : (t - s) / p.dist q < 0 := div_neg_of_neg_of_pos (by linarith) hpos
      have hclamp : Scalar.clamp 0.0 1.0 ((t - s) / p.dist q) = 0 := by
        rw [Scalar.clamp, decimal_zero, if_pos hshare]
      have hnone : (lengthsFrom s (p :: q :: rest)).takeWhile (fun l => decide (l ≤ t)) = [] := by
        rw [lengthsFrom, List.takeWhile_cons, if_neg (by simpa using hlt)]
      rw [sampleFrom]
      simp only [hnone, List.length_nil, Nat.zero_sub, Nat.zero_min]
      change p + (q - p) * Scalar.clamp 0.0 1.0 ((t - s) / (s + p.dist q - s)) = p
      rw [add_sub_cancel_left, hclamp]
      ext <;> simp

/-- Behind its last vertex it stays there. -/
theorem sampleFrom_of_last_le (h : IsProper (p :: rest))
    (ht : ∀ l ∈ lengthsFrom s (p :: rest), l ≤ t) :
    sampleFrom s (p :: rest) t = (p :: rest).getLast (List.cons_ne_nil _ _) := by
  induction rest generalizing p s with
  | nil => rfl
  | cons q rest ih =>
      obtain ⟨hpos, hrest⟩ := List.isChain_cons_cons.mp h
      have hlater : ∀ l ∈ lengthsFrom (s + p.dist q) (q :: rest), l ≤ t := fun l hl =>
        ht l (List.mem_cons_of_mem _ hl)
      have hsecond : s + p.dist q ∈ lengthsFrom (s + p.dist q) (q :: rest) :=
        List.mem_of_getElem? (getElem?_lengthsFrom_zero _ _)
      rw [sampleFrom_of_le hpos (hlater _ hsecond), ih hrest hlater]
      exact (List.getLast_cons (List.cons_ne_nil _ _)).symm

/-! ## A path by its arc length -/

/-- The way along a path from its first vertex to another. -/
noncomputable def arcLength (p : Polyline ℝ) (i : Nat) : ℝ :=
  ((List.zipWith Vec.dist p.points p.points.tail).take i).sum

/-- Points of a path are found by arc length: every vertex at its own, and the first and the last
one beyond the ends. No two of them are further apart than the way between them, and on one piece
they are just as far apart. -/
structure GoesByLength (p : Polyline ℝ) : Prop where
  length_eq : p.length = p.arcLength (p.points.length - 1)
  sample_arcLength : ∀ i (h : i < p.points.length), p.sample (p.arcLength i) = p.points[i]
  sample_of_le : ∀ t ≤ 0, some (p.sample t) = p.points.head?
  sample_of_ge : ∀ t, p.length ≤ t → some (p.sample t) = p.points.getLast?
  dist_le : ∀ t u, (p.sample t).dist (p.sample u) ≤ |t - u|
  dist_eq : ∀ i, i + 1 < p.points.length →
    ∀ t ∈ Set.Icc (p.arcLength i) (p.arcLength (i + 1)),
    ∀ u ∈ Set.Icc (p.arcLength i) (p.arcLength (i + 1)), (p.sample t).dist (p.sample u) = |t - u|

theorem getElem?_lengthsFrom (s : ℝ) (points : List (Vec ℝ)) {i : Nat} (hi : i < points.length) :
    (lengthsFrom s points)[i]? =
      some (s + ((List.zipWith Vec.dist points points.tail).take i).sum) := by
  fun_induction lengthsFrom s points generalizing i with
  | case1 s => simp at hi
  | case2 s p =>
      obtain rfl : i = 0 := by simpa using hi
      simp
  | case3 s p q rest ih =>
      cases i with
      | zero => simp
      | succ i =>
          rw [List.getElem?_cons_succ, ih (by simpa using hi)]
          simp [add_assoc]

variable {points : List (Vec ℝ)}

theorem getElem?_lengths {p : Polyline ℝ} {i : Nat} (hi : i < p.points.length) :
    p.lengths[i]? = some (p.arcLength i) := by
  rw [lengths, getElem?_lengthsFrom _ _ hi, decimal_zero, zero_add, arcLength]

theorem length_eq_arcLength {p : Polyline ℝ} (h : 2 ≤ p.points.length) :
    p.length = p.arcLength (p.points.length - 1) := by
  have hcount : p.lengths.length = p.points.length := by
    rw [lengths, length_lengthsFrom]
    omega
  rw [length, List.getLastD_eq_getLast?, List.getLast?_eq_getElem?, hcount,
    getElem?_lengths (by omega), Option.getD_some]

theorem le_length_of_mem {l : ℝ} (hl : l ∈ (ofPoints points).lengths) :
    l ≤ (ofPoints points).length := by
  have hchain : (ofPoints points).lengths.IsChain (· < ·) :=
    (isChain_lengths points).imp fun _ _ hab => hab.lt
  have hordered := List.pairwise_iff_getElem.mp hchain.pairwise
  obtain ⟨i, hi, rfl⟩ := List.mem_iff_getElem.mp hl
  have hend : (ofPoints points).lengths.length - 1 < (ofPoints points).lengths.length := by omega
  have hlast : (ofPoints points).length =
      (ofPoints points).lengths[(ofPoints points).lengths.length - 1] := by
    rw [length, List.getLastD_eq_getLast?, List.getLast?_eq_getElem?,
      List.getElem?_eq_getElem hend, Option.getD_some]
  rw [hlast]
  by_cases hlt : i < (ofPoints points).lengths.length - 1
  · exact (hordered i _ hi hend hlt).le
  · obtain rfl : i = (ofPoints points).lengths.length - 1 := by omega
    exact le_rfl

/-- Beyond its ends a path has its first and its last vertex. -/
theorem sample_beyond (h : (ofPoints points).points ≠ []) :
    (∀ t ≤ 0, some ((ofPoints points).sample t) = (ofPoints points).points.head?) ∧
    ∀ t, (ofPoints points).length ≤ t →
      some ((ofPoints points).sample t) = (ofPoints points).points.getLast? := by
  have hproper := isProper_ofPoints points
  have hreach : ∀ t, (ofPoints points).length ≤ t → ∀ l ∈ lengthsFrom 0 (ofPoints points).points,
      l ≤ t := by
    intro t ht l hl
    rw [← decimal_zero] at hl
    exact (le_length_of_mem hl).trans ht
  simp only [sample_eq_sampleFrom]
  obtain ⟨v, rest, hpoints⟩ := List.exists_cons_of_ne_nil h
  rw [hpoints] at hproper hreach ⊢
  constructor
  · intro t ht
    rw [sampleFrom_of_le_first hproper ht, List.head?_cons]
  · intro t ht
    rw [sampleFrom_of_last_le hproper (hreach t ht),
      List.getLast?_eq_some_getLast (List.cons_ne_nil _ _)]

theorem length_nonneg (h : (ofPoints points).isDegenerate = false) :
    0 ≤ (ofPoints points).length := by
  obtain ⟨times, hlengths, -⟩ := exists_lengths_eq h
  apply le_length_of_mem
  rw [hlengths]
  exact List.mem_cons_self

/-- Beyond the ends of a path its points are those at the ends. -/
theorem sample_clamp (h : (ofPoints points).isDegenerate = false) (t : ℝ) :
    (ofPoints points).sample (max 0 (min t (ofPoints points).length)) =
      (ofPoints points).sample t := by
  have hne : (ofPoints points).points ≠ [] := by
    intro hnil
    simp [isDegenerate, hnil] at h
  have hnonneg := length_nonneg h
  obtain ⟨hbefore, hbehind⟩ := sample_beyond hne
  apply Option.some.inj
  by_cases ht : t ≤ 0
  · rw [hbefore t ht, max_eq_left ((min_le_left _ _).trans ht), hbefore 0 le_rfl]
  · by_cases hlength : (ofPoints points).length ≤ t
    · rw [hbehind t hlength, min_eq_right hlength, max_eq_right hnonneg, hbehind _ le_rfl]
    · rw [min_eq_left (le_of_not_ge hlength), max_eq_right (le_of_not_ge ht)]

/-- Bringing two lengths into a range brings them no further apart. -/
theorem clamp_sub_clamp_le {t u : ℝ} (htu : t ≤ u) (length : ℝ) :
    max 0 (min u length) - max 0 (min t length) ≤ u - t := by
  have hmax := abs_max_sub_max_le_abs (min u length) (min t length) 0
  have hmin := abs_min_sub_min_le_max u length t length
  rw [sub_self, abs_zero, max_eq_left (abs_nonneg _), abs_of_nonneg (sub_nonneg.mpr htu)] at hmin
  rw [max_comm _ (0 : ℝ), max_comm _ (0 : ℝ)] at hmax
  exact (le_abs_self _).trans (hmax.trans hmin)

/-- Points of a path are no further apart than the way between them, also beyond its ends. -/
theorem dist_sample_le (h : (ofPoints points).isDegenerate = false) {t u : ℝ} (htu : t ≤ u) :
    ((ofPoints points).sample t).dist ((ofPoints points).sample u) ≤ u - t := by
  obtain ⟨times, hlengths, -⟩ := exists_lengths_eq h
  have hstraight := isChain_lengths points
  rw [hlengths] at hstraight
  have hlast : (0 :: times).getLast (List.cons_ne_nil _ _) = (ofPoints points).length := by
    rw [length, hlengths, List.getLastD_eq_getLast?, List.getLast?_eq_some_getLast]
    rfl
  have hmono : max 0 (min t (ofPoints points).length) ≤ max 0 (min u (ofPoints points).length) :=
    max_le_max le_rfl (min_le_min htu le_rfl)
  rw [← sample_clamp h t, ← sample_clamp h u]
  refine le_trans (dist_le_of_isChain hstraight (le_max_left _ _) hmono ?_)
    (clamp_sub_clamp_le htu _)
  rw [hlast]
  exact max_le (length_nonneg h) (min_le_right _ _)

theorem goesByLength (h : 2 ≤ (ofPoints points).points.length) :
    (ofPoints points).GoesByLength := by
  have hlong : (ofPoints points).isDegenerate = false := by
    rw [isDegenerate, decide_eq_false_iff_not]
    omega
  have hne : (ofPoints points).points ≠ [] := List.ne_nil_of_length_pos (by omega)
  obtain ⟨hbefore, hbehind⟩ := sample_beyond hne
  constructor
  case length_eq => exact length_eq_arcLength h
  case sample_arcLength =>
    intro i hi
    have hvertex := congrArg (·[i]?) (map_sample hlong)
    simpa [getElem?_lengths hi, hi] using hvertex
  case sample_of_le => exact hbefore
  case sample_of_ge => exact hbehind
  case dist_le =>
    intro t u
    rcases le_total t u with htu | hut
    · rw [abs_sub_comm, abs_of_nonneg (sub_nonneg.mpr htu)]
      exact dist_sample_le hlong htu
    · rw [Vec.dist_comm, abs_of_nonneg (sub_nonneg.mpr hut)]
      exact dist_sample_le hlong hut
  case dist_eq =>
    intro i hi t ht u hu
    obtain ⟨hl, hstart⟩ := List.getElem?_eq_some_iff.mp (getElem?_lengths (Nat.lt_of_succ_lt hi))
    obtain ⟨hl', hstop⟩ := List.getElem?_eq_some_iff.mp (getElem?_lengths hi)
    have hrun := List.IsChain.getElem (isChain_lengths points) i hl'
    rw [hstart, hstop] at hrun
    rw [hrun.dist_eq ht.1 ht.2 hu.1 hu.2, abs_sub_comm]

/-- In doubles, points and directions are found at every length of every path, whatever numbers it
is made of. Over the reals a path goes by its arc length. -/
theorem sampled_by_length :
    (∀ (points : List (Vec Float)) (t : Float), (ofPoints points).IsFoundAt t) ∧
    ∀ points : List (Vec ℝ), 2 ≤ (ofPoints points).points.length →
      (ofPoints points).GoesByLength :=
  ⟨fun points t => isFoundAt ((ofPoints points).pairwise_lengths t), fun _ => goesByLength⟩

theorem sampled_by_length_elbow : 2 ≤ (ofPoints (elbow 10)).points.length ∧
    (ofPoints (elbow 10)).sample 10 = ⟨10, 0⟩ ∧ (ofPoints (elbow 10)).sample 30 = ⟨10, 10⟩ ∧
    ((ofPoints (elbow 10)).sample 4).dist ((ofPoints (elbow 10)).sample 17) ≤ 13 ∧
    ((ofPoints (elbow 10)).sample 12).dist ((ofPoints (elbow 10)).sample 17) = 5 := by
  have hpoints : (ofPoints (elbow 10)).points = [⟨0, 0⟩, ⟨10, 0⟩, ⟨10, 10⟩] := by
    rw [ofPoints_elbow, elbow]
  have hlong : 2 ≤ (ofPoints (elbow 10)).points.length := by
    rw [hpoints]
    decide
  have hcount : (ofPoints (elbow 10)).points.length = 3 := by
    rw [hpoints]
    rfl
  have hfirst : (ofPoints (elbow 10)).arcLength 1 = 10 := by
    have hat := getElem?_lengths (p := ofPoints (elbow 10)) (i := 1) (by omega)
    simpa [lengths_elbow] using hat.symm
  have hsecond : (ofPoints (elbow 10)).arcLength 2 = 20 := by
    have hat := getElem?_lengths (p := ofPoints (elbow 10)) (i := 2) (by omega)
    simpa [lengths_elbow] using hat.symm
  have hgoes := sampled_by_length.2 (elbow 10) hlong
  refine ⟨hlong, ?_, ?_, ?_, ?_⟩
  · have hvertex := hgoes.sample_arcLength 1 (by omega)
    rw [hfirst] at hvertex
    simpa [hpoints] using hvertex
  · have hbehind := hgoes.sample_of_ge 30 (by
      rw [hgoes.length_eq, hcount, hsecond]
      norm_num)
    simpa [hpoints] using hbehind
  · have hway := hgoes.dist_le 4 17
    norm_num at hway
    exact hway
  · have hpiece := hgoes.dist_eq 1 (by omega) 12 (by norm_num [hfirst, hsecond])
      17 (by norm_num [hfirst, hsecond])
    norm_num at hpiece
    exact hpiece

end Polyline

end Roadworks
