import Roadworks.Proofs.Exact.Trimming
/-! # Mitres keep left to the left

The normal of a mitre makes the same angle with the left-hand normals of both pieces that it joins,
and the stretch undoes that angle up to the limit. Only where a path turns back on itself does the
section stand square on the piece that leaves. -/

namespace Roadworks

open Vec

/-! ## Half angles -/

namespace Vec

variable {a u : Vec ℝ}

/-- The direction halfway between two others. -/
theorem dot_unit_add (ha : a.norm = 1) (hu : u.norm = 1) :
    (a + u).unit.dot u = (a + u).norm / 2 := by
  have hsquare := norm_sq (a + u)
  have hda := dot_self_of_norm ha
  have hdu := dot_self_of_norm hu
  have hway : (a + u).dot u = (a + u).norm ^ 2 / 2 := by
    rw [hsquare]
    simp only [dot, add_x, add_y] at hda hdu ⊢
    linarith
  have hshare : (a + u).unit.dot u = (a + u).dot u * (1 / (a + u).norm) := by
    simp only [unit_eq, dot, mul_x, mul_y]
    ring
  rw [hshare, hway]
  rcases eq_or_ne (a + u).norm 0 with hzero | hne
  · simp [hzero]
  · field_simp

theorem dot_unit_add_left (ha : a.norm = 1) (hu : u.norm = 1) :
    (a + u).unit.dot a = (a + u).unit.dot u := by
  rw [dot_unit_add ha hu, add_comm, dot_unit_add hu ha]

theorem norm2_add_self (hu : u.norm = 1) : (u + u).norm2 = 4 := by
  have hsquare := norm_sq u
  rw [hu] at hsquare
  rw [norm2_eq, add_x, add_y]
  linarith

end Vec

/-! ## Frames -/

namespace Frame

variable {a u : Vec ℝ} {limit : ℝ} {f : Frame ℝ}

/-- Offsets along a frame keep their side of a piece with direction `u`, and their distance from it
unless the limit cuts them short. -/
structure Keeps (f : Frame ℝ) (u : Vec ℝ) (limit : ℝ) : Prop where
  dot_pos : 0 < f.normal.dot u.rot90
  scale_mul_le : f.scale * f.normal.dot u.rot90 ≤ 1
  scale_mul_eq : 1 / f.normal.dot u.rot90 ≤ max 1 limit → f.scale * f.normal.dot u.rot90 = 1

theorem miter_of_reversal (h : (a + u).norm2 < 1e-12) (limit : ℝ) :
    miter a u limit = ⟨u.rot90, 1⟩ := by
  rw [miter]
  dsimp only
  rw [if_pos h, decimal_one]

theorem miter_of_turn (h : 1e-12 ≤ (a + u).norm2) (limit : ℝ) :
    miter a u limit =
      ⟨(a + u).unit.rot90, min (1 / (a + u).unit.dot u) (max 1 limit)⟩ := by
  rw [miter]
  dsimp only
  rw [if_neg h.not_gt, decimal_one, Scalar.min_eq, Scalar.max_eq, max_comm]

theorem norm_add_pos (h : 1e-12 ≤ (a + u).norm2) : 0 < (a + u).norm := by
  rw [norm_pos_iff, ← norm2_pos_iff]
  exact lt_of_lt_of_le (by norm_num) h

theorem keeps_of_eq {c : ℝ} (hdot : f.normal.dot u.rot90 = c) (hc : 0 < c)
    (hscale : f.scale = min (1 / c) (max 1 limit)) : f.Keeps u limit := by
  refine ⟨hdot.symm ▸ hc, ?_, ?_⟩
  · rw [hdot, hscale]
    calc min (1 / c) (max 1 limit) * c ≤ 1 / c * c :=
          mul_le_mul_of_nonneg_right (min_le_left _ _) hc.le
      _ = 1 := one_div_mul_cancel hc.ne'
  · intro hfree
    rw [hdot] at hfree ⊢
    rw [hscale, min_eq_left hfree, one_div_mul_cancel hc.ne']

/-- A mitre keeps the side of the piece that leaves, also where that one turns back. -/
theorem keeps_leaving (ha : a.norm = 1) (hu : u.norm = 1) (limit : ℝ) :
    (miter a u limit).Keeps u limit := by
  rcases lt_or_ge (a + u).norm2 1e-12 with hback | hturn
  · rw [miter_of_reversal hback]
    refine keeps_of_eq (c := 1) ?_ one_pos ?_
    · rw [dot_rot90, dot_self_of_norm hu]
    · rw [div_one, min_eq_left (le_max_left _ _)]
  · have hhalf := dot_unit_add ha hu
    have hpos := norm_add_pos hturn
    rw [miter_of_turn hturn]
    exact keeps_of_eq (dot_rot90 _ _) (by linarith) rfl

/-- It keeps the side of the piece that arrives unless the next one turns back. -/
theorem keeps_arriving (ha : a.norm = 1) (hu : u.norm = 1) (hturn : 1e-12 ≤ (a + u).norm2)
    (limit : ℝ) : (miter a u limit).Keeps a limit := by
  have hhalf := dot_unit_add ha hu
  have hpos := norm_add_pos hturn
  rw [miter_of_turn hturn]
  exact keeps_of_eq ((dot_rot90 _ _).trans (dot_unit_add_left ha hu)) (by linarith) rfl

theorem norm_normal_miter (hu : u.norm = 1) (limit : ℝ) : (miter a u limit).normal.norm = 1 := by
  rcases lt_or_ge (a + u).norm2 1e-12 with hback | hturn
  · rw [miter_of_reversal hback, norm_rot90, hu]
  · rw [miter_of_turn hturn, norm_rot90, norm_unit (norm_pos_iff.mp (norm_add_pos hturn))]

theorem scale_miter_bounds (ha : a.norm = 1) (hu : u.norm = 1) (limit : ℝ) :
    1 ≤ (miter a u limit).scale ∧ (miter a u limit).scale ≤ max 1 limit := by
  rcases lt_or_ge (a + u).norm2 1e-12 with hback | hturn
  · rw [miter_of_reversal hback]
    exact ⟨le_rfl, le_max_left _ _⟩
  · have hhalf := dot_unit_add ha hu
    have hpos := norm_add_pos hturn
    have hmost : (a + u).unit.dot u ≤ 1 :=
      (abs_le.mp (abs_dot_le_one (norm_unit (norm_pos_iff.mp hpos)) hu)).2
    rw [miter_of_turn hturn]
    exact ⟨le_min (one_le_one_div (by linarith) hmost) (le_max_left _ _), min_le_right _ _⟩

/-- A mitre is neither cut short by the limit nor given up where the path turns back. -/
structure IsFree (a u : Vec ℝ) (limit : ℝ) : Prop where
  turn : 1e-12 ≤ (a + u).norm2
  stretch_le : 1 / (a + u).unit.dot u ≤ max 1 limit

theorem isFree_self (hu : u.norm = 1) (limit : ℝ) : IsFree u u limit := by
  have hlength : (u + u).norm ^ 2 = 2 ^ 2 := by
    rw [norm_sq, ← norm2_eq, norm2_add_self hu]
    norm_num
  have htwo : (u + u).norm = 2 := (sq_eq_sq₀ (norm_nonneg _) two_pos.le).mp hlength
  refine ⟨?_, ?_⟩
  · rw [norm2_add_self hu]
    norm_num
  · rw [dot_unit_add hu hu, htwo, div_self two_ne_zero, div_one]
    exact le_max_left _ _

/-- A free mitre keeps the full width on both sides of the bend. -/
theorem IsFree.scale_mul_leaving (h : IsFree a u limit) (ha : a.norm = 1) (hu : u.norm = 1) :
    (miter a u limit).scale * (miter a u limit).normal.dot u.rot90 = 1 := by
  refine (keeps_leaving ha hu limit).scale_mul_eq ?_
  rw [miter_of_turn h.turn, dot_rot90]
  exact h.stretch_le

theorem IsFree.scale_mul_arriving (h : IsFree a u limit) (ha : a.norm = 1) (hu : u.norm = 1) :
    (miter a u limit).scale * (miter a u limit).normal.dot a.rot90 = 1 := by
  refine (keeps_arriving ha hu h.turn limit).scale_mul_eq ?_
  rw [miter_of_turn h.turn, dot_rot90, dot_unit_add_left ha hu]
  exact h.stretch_le

end Frame

/-! ## Frames of a path -/

namespace Polyline

variable {α : Type} [Scalar α] {p : Polyline α} {arrival departure : Option (Vec α)} {limit : α}
  {i : Nat} {piece : Piece α}

/-- The direction in which a path arrives at vertex number `i`, if there is one. -/
def arriving (p : Polyline α) (arrival : Option (Vec α)) : Nat → Option (Vec α)
  | 0 => arrival
  | i + 1 => p.pieces[i]?.map Piece.direction

/-- The direction in which a path leaves vertex number `i`, if there is one. -/
def leaving (p : Polyline α) (departure : Option (Vec α)) (i : Nat) : Option (Vec α) :=
  (p.pieces[i]?.map Piece.direction).or departure

theorem frames_eq {first : Piece α} (hfirst : p.pieces[0]? = some first)
    (arrival departure : Option (Vec α)) (limit : α) :
    p.frames arrival departure limit = List.zipWith (fun a u => .miter a u limit)
      (arrival.getD first.direction :: p.pieces.map Piece.direction)
      (p.pieces.map Piece.direction ++
        [departure.getD ((p.pieces.map Piece.direction).getLastD first.direction)]) := by
  obtain ⟨rest, hpieces⟩ : ∃ rest, p.pieces = first :: rest := by
    rw [← List.head?_eq_getElem?] at hfirst
    exact List.head?_eq_some_iff.mp hfirst
  rw [frames, hpieces]
  rfl

theorem exists_first (h : p.pieces[i]? = some piece) : ∃ first, p.pieces[0]? = some first := by
  obtain ⟨hlt, _⟩ := List.getElem?_eq_some_iff.mp h
  exact ⟨_, List.getElem?_eq_getElem (Nat.zero_lt_of_lt hlt)⟩

/-- The frame where a piece begins. -/
theorem getElem?_frames (h : p.pieces[i]? = some piece) (departure : Option (Vec α)) :
    (p.frames arrival departure limit)[i]? =
      some (.miter ((p.arriving arrival i).getD piece.direction) piece.direction limit) := by
  obtain ⟨first, hfirst⟩ := exists_first h
  obtain ⟨hlt, _⟩ := List.getElem?_eq_some_iff.mp h
  rw [frames_eq hfirst, List.getElem?_zipWith, List.getElem?_append_left (by simpa using hlt),
    List.getElem?_map, h]
  cases i with
  | zero =>
      cases hfirst.symm.trans h
      rfl
  | succ i =>
      have hbefore := List.getElem?_eq_getElem (Nat.lt_of_succ_lt hlt)
      simp [arriving, hbefore]

/-- The frame where a piece ends. -/
theorem getElem?_frames_succ (h : p.pieces[i]? = some piece) (arrival : Option (Vec α)) :
    (p.frames arrival departure limit)[i + 1]? =
      some (.miter piece.direction ((p.leaving departure (i + 1)).getD piece.direction) limit) := by
  obtain ⟨first, hfirst⟩ := exists_first h
  obtain ⟨hlt, _⟩ := List.getElem?_eq_some_iff.mp h
  rw [frames_eq hfirst, List.getElem?_zipWith, List.getElem?_cons_succ, List.getElem?_map, h,
    leaving]
  rcases Nat.lt_or_ge (i + 1) p.pieces.length with hnext | hlast
  · rw [List.getElem?_append_left (by simpa using hnext), List.getElem?_map,
      List.getElem?_eq_getElem hnext]
    rfl
  · have hlength : (p.pieces.map Piece.direction).length = i + 1 := by
      rw [List.length_map]
      omega
    have hend : (p.pieces.map Piece.direction).getLastD first.direction = piece.direction := by
      rw [List.getLastD_eq_getLast?, List.getLast?_eq_getElem?, hlength, Nat.add_sub_cancel,
        List.getElem?_map, h]
      rfl
    rw [List.getElem?_append_right hlength.le, hlength, Nat.sub_self, hend,
      List.getElem?_eq_none hlast]
    rfl

theorem length_frames (h : p.isDegenerate = false) (arrival departure : Option (Vec α))
    (limit : α) : (p.frames arrival departure limit).length = p.points.length := by
  have hpoints : 2 ≤ p.points.length := by
    simp only [isDegenerate, decide_eq_false_iff_not] at h
    omega
  have hpieces := p.length_pieces
  have hfirst := List.getElem?_eq_getElem (l := p.pieces) (i := 0) (by omega)
  rw [frames_eq hfirst]
  simp
  omega

end Polyline

/-! ## Paths that keep their sides -/

namespace Polyline

variable {points : List (Vec ℝ)} {arrival departure : Option (Vec ℝ)} {limit : ℝ} {i : Nat}
  {piece : Piece ℝ} {f : Frame ℝ}

/-- The frames of a path keep the side and the width of its pieces. -/
structure KeepsSide (p : Polyline ℝ) (arrival departure : Option (Vec ℝ)) (limit : ℝ) : Prop where
  length_frames : (p.frames arrival departure limit).length = p.points.length
  norm_normal : ∀ f ∈ p.frames arrival departure limit, f.normal.norm = 1
  scale_bounds : ∀ f ∈ p.frames arrival departure limit, 1 ≤ f.scale ∧ f.scale ≤ max 1 limit
  keeps_leaving : ∀ (i : Nat) (piece : Piece ℝ) (f : Frame ℝ), p.pieces[i]? = some piece →
    (p.frames arrival departure limit)[i]? = some f → f.Keeps piece.direction limit
  /-- The side of a piece is kept at its end unless the path turns back there. -/
  keeps_arriving : ∀ (i : Nat) (piece : Piece ℝ) (f : Frame ℝ), p.pieces[i]? = some piece →
    (p.frames arrival departure limit)[i + 1]? = some f →
    (∀ d, p.leaving departure (i + 1) = some d → 1e-12 ≤ (piece.direction + d).norm2) →
    f.Keeps piece.direction limit
  /-- Where a path turns back, the section stands square on the piece that leaves. -/
  square_of_reversal : ∀ (i : Nat) (piece : Piece ℝ) (f : Frame ℝ) (d : Vec ℝ),
    p.pieces[i]? = some piece → (p.frames arrival departure limit)[i]? = some f →
    p.arriving arrival i = some d → (d + piece.direction).norm2 < 1e-12 →
    f = ⟨piece.direction.rot90, 1⟩
  /-- So it does at the end of a piece, also of the last one, from which the departure leaves. -/
  square_of_reversal_end : ∀ (i : Nat) (piece : Piece ℝ) (f : Frame ℝ) (d : Vec ℝ),
    p.pieces[i]? = some piece → (p.frames arrival departure limit)[i + 1]? = some f →
    p.leaving departure (i + 1) = some d → (piece.direction + d).norm2 < 1e-12 →
    f = ⟨d.rot90, 1⟩

theorem isChain_keepApart (last : Vec ℝ) (points : List (Vec ℝ)) :
    (last :: keepApart last points).IsChain fun a b => ¬ a.dist b < vertexGap := by
  fun_induction keepApart last points with
  | case1 => exact .singleton _
  | case2 last p rest h ih => exact ih
  | case3 last p rest h ih => exact .cons_cons h ih

/-- Vertices that lie apart are kept. -/
theorem ofPoints_of_isChain (h : points.IsChain fun a b => ¬ a.dist b < vertexGap) :
    ofPoints points = ⟨points⟩ := by
  have hkeep (last : Vec ℝ) (rest : List (Vec ℝ))
      (h : (last :: rest).IsChain fun a b => ¬ a.dist b < vertexGap) :
      keepApart last rest = rest := by
    induction rest generalizing last with
    | nil => rfl
    | cons p rest ih =>
        rw [List.isChain_cons_cons] at h
        rw [keepApart, if_neg h.1, ih p h.2]
  cases points with
  | nil => rfl
  | cons p rest => rw [ofPoints, hkeep p rest h]

theorem forall_mem_piecesFrom {R : Vec ℝ → Vec ℝ → Prop} (s : ℝ) (h : points.IsChain R) :
    ∀ piece ∈ piecesFrom s points, R piece.start piece.stop := by
  fun_induction piecesFrom s points with
  | case1 => simp
  | case2 => simp
  | case3 s p q rest ih =>
      intro piece hpiece
      rw [List.isChain_cons_cons] at h
      rcases List.mem_cons.mp hpiece with rfl | hpiece
      · exact h.1
      · exact ih h.2 piece hpiece

/-- No piece of a path is without direction. -/
theorem norm_direction (h : piece ∈ (ofPoints points).pieces) : piece.direction.norm = 1 := by
  have hapart : ¬ piece.start.dist piece.stop < vertexGap := by
    cases points with
    | nil => cases h
    | cons p rest => exact forall_mem_piecesFrom 0.0 (isChain_keepApart p rest) piece h
  have hlong : 0 < piece.start.dist piece.stop := vertexGap_pos.trans_le (not_lt.mp hapart)
  exact norm_unit (sub_ne_zero.mpr (dist_pos_iff.mp hlong).symm)

theorem norm_arriving (harrival : ∀ d ∈ arrival, d.norm = 1) :
    ∀ d ∈ (ofPoints points).arriving arrival i, d.norm = 1 := by
  cases i with
  | zero => exact harrival
  | succ i =>
      intro d hd
      obtain ⟨piece, hpiece, rfl⟩ := Option.map_eq_some_iff.mp hd
      exact norm_direction (List.mem_of_getElem? hpiece)

theorem norm_leaving (hdeparture : ∀ d ∈ departure, d.norm = 1) :
    ∀ d ∈ (ofPoints points).leaving departure i, d.norm = 1 := by
  intro d hd
  rcases Option.or_eq_some_iff.mp hd with hd | ⟨_, hd⟩
  · obtain ⟨piece, hpiece, rfl⟩ := Option.map_eq_some_iff.mp hd
    exact norm_direction (List.mem_of_getElem? hpiece)
  · exact hdeparture d hd

theorem norm_getD {o : Option (Vec ℝ)} {u : Vec ℝ} (ho : ∀ d ∈ o, d.norm = 1) (hu : u.norm = 1) :
    (o.getD u).norm = 1 := by
  cases o with
  | none => exact hu
  | some d => exact ho d rfl

/-- Every frame is a mitre of two directions. -/
theorem exists_miter_of_mem_frames (hlong : (ofPoints points).isDegenerate = false)
    (harrival : ∀ d ∈ arrival, d.norm = 1) (hdeparture : ∀ d ∈ departure, d.norm = 1)
    (hf : f ∈ (ofPoints points).frames arrival departure limit) :
    ∃ a u : Vec ℝ, a.norm = 1 ∧ u.norm = 1 ∧ f = .miter a u limit := by
  have hlength := length_frames hlong arrival departure limit
  have hpieces := (ofPoints points).length_pieces
  obtain ⟨i, hi⟩ := List.mem_iff_getElem?.mp hf
  obtain ⟨hlt, _⟩ := List.getElem?_eq_some_iff.mp hi
  -- A piece begins at every vertex but the last, and one ends there.
  rcases Nat.lt_or_ge i (ofPoints points).pieces.length with hbegin | hend
  · have hpiece := List.getElem?_eq_getElem hbegin
    have hunit := norm_direction (List.mem_of_getElem? hpiece)
    rw [getElem?_frames hpiece] at hi
    exact ⟨_, _, norm_getD (norm_arriving harrival) hunit, hunit, (Option.some.inj hi).symm⟩
  · simp only [isDegenerate, decide_eq_false_iff_not] at hlong
    obtain ⟨j, rfl⟩ : ∃ j, i = j + 1 := ⟨i - 1, by omega⟩
    have hpiece := List.getElem?_eq_getElem (l := (ofPoints points).pieces) (i := j) (by omega)
    have hunit := norm_direction (List.mem_of_getElem? hpiece)
    rw [getElem?_frames_succ hpiece] at hi
    exact ⟨_, _, hunit, norm_getD (norm_leaving hdeparture) hunit, (Option.some.inj hi).symm⟩

/-- Between vertices that lie apart, all frames keep the side of the pieces. -/
theorem keepsSide (hlong : (ofPoints points).isDegenerate = false)
    (harrival : ∀ d ∈ arrival, d.norm = 1) (hdeparture : ∀ d ∈ departure, d.norm = 1) (limit : ℝ) :
    (ofPoints points).KeepsSide arrival departure limit where
  length_frames := length_frames hlong arrival departure limit
  norm_normal f hf := by
    obtain ⟨a, u, _, hu, rfl⟩ := exists_miter_of_mem_frames hlong harrival hdeparture hf
    exact Frame.norm_normal_miter hu limit
  scale_bounds f hf := by
    obtain ⟨a, u, ha, hu, rfl⟩ := exists_miter_of_mem_frames hlong harrival hdeparture hf
    exact Frame.scale_miter_bounds ha hu limit
  keeps_leaving i piece f hpiece hf := by
    have hunit := norm_direction (List.mem_of_getElem? hpiece)
    rw [getElem?_frames hpiece] at hf
    rw [← Option.some.inj hf]
    exact Frame.keeps_leaving (norm_getD (norm_arriving harrival) hunit) hunit limit
  keeps_arriving i piece f hpiece hf hturn := by
    have hunit := norm_direction (List.mem_of_getElem? hpiece)
    rw [getElem?_frames_succ hpiece] at hf
    rw [← Option.some.inj hf]
    refine Frame.keeps_arriving hunit (norm_getD (norm_leaving hdeparture) hunit) ?_ limit
    cases hnext : (ofPoints points).leaving departure (i + 1) with
    | none => exact (norm2_add_self hunit).symm ▸ by norm_num
    | some d => exact hturn d hnext
  square_of_reversal i piece f d hpiece hf hd hback := by
    rw [getElem?_frames hpiece, hd] at hf
    rw [← Option.some.inj hf]
    exact Frame.miter_of_reversal hback limit
  square_of_reversal_end i piece f d hpiece hf hd hback := by
    rw [getElem?_frames_succ hpiece, hd] at hf
    rw [← Option.some.inj hf]
    exact Frame.miter_of_reversal hback limit

/-- A path that turns back on itself, up to the width of a hair. -/
noncomputable def hairpin : List (Vec ℝ) := [⟨0, 0⟩, ⟨1, 0⟩, ⟨6.25e-14, 5e-7⟩]

theorem norm_hairpin : ((⟨6.25e-14, 5e-7⟩ : Vec ℝ) - ⟨1, 0⟩).norm = 1 + 6.25e-14 := by
  have hsquare : ((⟨6.25e-14, 5e-7⟩ : Vec ℝ) - ⟨1, 0⟩).x ^ 2 +
      ((⟨6.25e-14, 5e-7⟩ : Vec ℝ) - ⟨1, 0⟩).y ^ 2 = (1 + 6.25e-14) ^ 2 := by
    norm_num
  rw [norm_eq, hsquare, Real.sqrt_sq (by norm_num)]

theorem ofPoints_hairpin : ofPoints hairpin = ⟨hairpin⟩ := by
  refine ofPoints_of_isChain ?_
  have hfirst : (⟨0, 0⟩ : Vec ℝ).dist ⟨1, 0⟩ = 1 := by
    simp [dist_eq]
  have hsecond : (⟨1, 0⟩ : Vec ℝ).dist ⟨6.25e-14, 5e-7⟩ = 1 + 6.25e-14 := norm_hairpin
  simp only [hairpin, List.isChain_cons_cons, hfirst, hsecond, vertexGap]
  norm_num

/-- Where a path turns back, what was left of it comes to lie on the right. -/
theorem hairpin_changes_side : (ofPoints hairpin).isDegenerate = false ∧
    ∃ piece f, (ofPoints hairpin).pieces[0]? = some piece ∧
      ((ofPoints hairpin).frames none none 4.0)[1]? = some f ∧
      f.normal.dot piece.direction.rot90 < 0 := by
  have hstart : ((⟨1, 0⟩ : Vec ℝ) - ⟨0, 0⟩).unit = ⟨1, 0⟩ := by
    have hone : ((⟨1, 0⟩ : Vec ℝ) - ⟨0, 0⟩).norm = 1 := by
      simp [norm_eq]
    rw [unit_eq_self hone]
    ext <;> simp
  have hback : ((⟨1, 0⟩ : Vec ℝ) + ((⟨6.25e-14, 5e-7⟩ : Vec ℝ) - ⟨1, 0⟩).unit).norm2 < 1e-12 := by
    rw [unit_eq, norm_hairpin, norm2_eq]
    norm_num
  rw [ofPoints_hairpin]
  refine ⟨rfl, ⟨⟨0.0, 0.0 + (⟨0, 0⟩ : Vec ℝ).dist ⟨1, 0⟩⟩, ⟨0, 0⟩, ⟨1, 0⟩⟩,
    .miter (((⟨1, 0⟩ : Vec ℝ) - ⟨0, 0⟩).unit) ((⟨6.25e-14, 5e-7⟩ : Vec ℝ) - ⟨1, 0⟩).unit 4.0,
    rfl, rfl, ?_⟩
  rw [hstart, Frame.miter_of_reversal hback, Piece.direction, hstart, dot_rot90, unit_eq,
    norm_hairpin]
  norm_num [dot]

end Polyline

end Roadworks
