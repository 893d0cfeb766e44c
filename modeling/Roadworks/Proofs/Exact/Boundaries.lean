import Roadworks.Proofs.Exact.Bands
/-! # Lines between the lanes

The lanes of a road are one run, or two runs around a median. Every run has an edge on both sides
and a line before each of its other lanes, and that is the centre line where all lanes of the left
side have been passed. -/

namespace Roadworks

/-! ## Roles -/

section Roles

variable {leftLanes seen : Nat} {previous : Option BandKind} {rest : List BandKind}

/-- What a line between two lanes separates when there are `seen` lanes to its left. -/
def BoundaryRole.between (leftLanes seen : Nat) : BoundaryRole :=
  if seen = leftLanes then .centre else .laneDivider

/-- What the lines separate, which can be told from the kinds of the bands. -/
def BandKind.roles (leftLanes seen : Nat) (previous : Option BandKind) :
    List BandKind → List BoundaryRole
  | [] => []
  | kind :: rest =>
    if kind = .lane then
      (if previous = some .lane then .between leftLanes seen else .edge) ::
        (if rest.head? = some .lane then [] else [.edge]) ++
        roles leftLanes (seen + 1) (some .lane) rest
    else roles leftLanes seen (some kind) rest

/-- What is painted in the place of a line. -/
def MarkingPattern.styleOf {α : Type} (m : MarkingPattern α) : BoundaryRole → LineStyle
  | .edge => m.edge
  | .laneDivider => m.lane
  | .centre => m.centre

namespace BandKind

/-- There are no lines beyond the lanes. -/
theorem roles_append_of_ne_lane {outside : List BandKind} (h : ∀ k ∈ outside, k ≠ .lane) :
    roles leftLanes seen previous (outside ++ rest) =
      roles leftLanes seen (outside.getLast?.or previous) rest := by
  induction outside generalizing previous with
  | nil => rfl
  | cons k outside ih =>
      rw [List.cons_append, roles, if_neg (h k List.mem_cons_self),
        ih fun j hj => h j (List.mem_cons_of_mem k hj)]
      cases outside with
      | nil => rfl
      | cons => rw [List.getLast?_cons_cons, List.getLast?_cons, Option.some_or, Option.some_or]

/-- A run of lanes starts with a line of its own, has one line before each further lane and ends
with an edge. -/
theorem roles_run (h : rest.head? ≠ some .lane) (k : Nat) :
    roles leftLanes seen previous (List.replicate (k + 1) .lane ++ rest) =
      (if previous = some .lane then .between leftLanes seen else .edge) ::
        (List.range' (seen + 1) k).map (BoundaryRole.between leftLanes) ++
        .edge :: roles leftLanes (seen + 1 + k) (some .lane) rest := by
  induction k generalizing seen previous with
  | zero => simp [roles, h]
  | succ k ih =>
      have hnext : (List.replicate (k + 1) BandKind.lane ++ rest).head? = some .lane := rfl
      have hseen : seen + 1 + 1 + k = seen + 1 + (k + 1) := by
        omega
      rw [List.replicate_succ, List.cons_append, roles, if_pos rfl, if_pos hnext, ih, hseen,
        if_pos rfl, List.range'_succ]
      rfl

/-- There are no lines where there are no lanes. -/
theorem roles_eq_nil (h : ∀ k ∈ rest, k ≠ .lane) : roles leftLanes seen previous rest = [] := by
  rw [← List.append_nil rest, roles_append_of_ne_lane h]
  rfl

/-- A run of lanes that comes after other bands has an edge on both sides. -/
theorem roles_append_run (leftLanes seen : Nat) (previous : Option BandKind)
    {outside : List BandKind} (houtside : ∀ k ∈ outside, k ≠ .lane)
    (hprevious : previous = some .lane → outside ≠ []) (hrest : rest.head? ≠ some .lane) (k : Nat) :
    roles leftLanes seen previous (outside ++ (List.replicate (k + 1) .lane ++ rest)) =
      .edge :: (List.range' (seen + 1) k).map (BoundaryRole.between leftLanes) ++
        .edge :: roles leftLanes (seen + 1 + k) (some .lane) rest := by
  have hfirst : outside.getLast?.or previous ≠ some .lane := by
    intro hlane
    cases hlast : outside.getLast? with
    | none =>
        rw [hlast, Option.none_or] at hlane
        exact hprevious hlane (List.getLast?_eq_none_iff.mp hlast)
    | some j =>
        rw [hlast, Option.some_or] at hlane
        exact houtside j (List.mem_of_getLast? hlast) (Option.some.inj hlane)
  rw [roles_append_of_ne_lane houtside, roles_run hrest, if_neg hfirst]

/-- Away from the middle, all lines between lanes are dividers. -/
theorem map_between_range' {first k : Nat} (h : leftLanes < first ∨ first + k ≤ leftLanes) :
    (List.range' first k).map (BoundaryRole.between leftLanes) =
      List.replicate k .laneDivider := by
  refine List.eq_replicate_iff.mpr ⟨by simp, ?_⟩
  intro role hrole
  obtain ⟨i, hi, rfl⟩ := List.mem_map.mp hrole
  have hbounds := List.mem_range'_1.mp hi
  exact if_neg (by omega)

/-- On a road without a median, the centre line lies between the dividers of both sides. -/
theorem map_between_of_le {left right : Nat} (hleft : left ≠ 0) (hright : right ≠ 0) :
    (List.range' 1 (left + right - 1)).map (BoundaryRole.between left) =
      List.replicate (left - 1) .laneDivider ++ .centre ::
        List.replicate (right - 1) .laneDivider := by
  have hcount : left + right - 1 = left - 1 + (right - 1 + 1) := by
    omega
  have hmiddle : 1 + (left - 1) = left := by
    omega
  have hcentre : BoundaryRole.between left left = .centre := if_pos rfl
  rw [hcount, ← List.range'_append_1, List.map_append, hmiddle, List.range'_succ, List.map_cons,
    map_between_range' (.inr hmiddle.le), map_between_range' (.inl (Nat.lt_succ_self left)),
    hcentre]

/-! ### One lane, two sides, two sides around a median -/

variable {outside middle : List BandKind} {left right : Nat}

theorem head?_reverse_ne_lane (h : ∀ k ∈ outside, k ≠ .lane) :
    outside.reverse.head? ≠ some .lane := fun hlane =>
  h _ (List.mem_reverse.mp (List.mem_of_head? hlane)) rfl

theorem roles_reverse (h : ∀ k ∈ outside, k ≠ .lane) :
    roles leftLanes seen previous outside.reverse = [] :=
  roles_eq_nil fun k hk => h k (List.mem_reverse.mp hk)

theorem roles_single (houtside : ∀ k ∈ outside, k ≠ .lane) (hmiddle : ∀ k ∈ middle, k ≠ .lane) :
    roles 0 0 none (outside ++ middle ++ [.lane] ++ outside.reverse) = [.edge, .edge] := by
  have hbefore (k : BandKind) (hk : k ∈ outside ++ middle) : k ≠ .lane :=
    (List.mem_append.mp hk).elim (houtside k) (hmiddle k)
  have hrun := roles_append_run 0 0 none hbefore nofun (head?_reverse_ne_lane houtside) 0
  rw [List.append_assoc (outside ++ middle)]
  rwa [roles_reverse houtside] at hrun

theorem roles_without_median (houtside : ∀ k ∈ outside, k ≠ .lane) (hleft : left ≠ 0)
    (hright : right ≠ 0) :
    roles left 0 none (outside ++ List.replicate left BandKind.lane ++
      List.replicate right BandKind.lane ++ outside.reverse) =
      [BoundaryRole.edge] ++ List.replicate (left - 1) BoundaryRole.laneDivider ++
        [BoundaryRole.centre] ++ List.replicate (right - 1) BoundaryRole.laneDivider ++
        [BoundaryRole.edge] := by
  have hlanes : List.replicate left BandKind.lane ++ List.replicate right .lane =
      List.replicate (left + right - 1 + 1) .lane := by
    rw [List.replicate_append_replicate, Nat.sub_add_cancel (by omega)]
  have hrun := roles_append_run left 0 none houtside nofun (head?_reverse_ne_lane houtside)
    (left + right - 1)
  rw [List.append_assoc outside, hlanes, List.append_assoc, hrun, roles_reverse houtside,
    map_between_of_le hleft hright]
  simp

theorem roles_around_median (houtside : ∀ k ∈ outside, k ≠ .lane) (hleft : left ≠ 0)
    (hright : right ≠ 0) :
    roles left 0 none (outside ++ List.replicate left BandKind.lane ++ [BandKind.median] ++
      List.replicate right BandKind.lane ++ outside.reverse) =
      [BoundaryRole.edge] ++ List.replicate (left - 1) BoundaryRole.laneDivider ++
        [BoundaryRole.edge, BoundaryRole.edge] ++
        List.replicate (right - 1) BoundaryRole.laneDivider ++ [BoundaryRole.edge] := by
  obtain ⟨left, rfl⟩ := Nat.exists_eq_succ_of_ne_zero hleft
  obtain ⟨right, rfl⟩ := Nat.exists_eq_succ_of_ne_zero hright
  have hmedian : ∀ k ∈ [BandKind.median], k ≠ .lane := by
    simp
  have hnext (rest : List BandKind) : ([BandKind.median] ++ rest).head? ≠ some .lane := by
    simp
  simp only [List.append_assoc]
  rw [roles_append_run (left + 1) 0 none houtside nofun (hnext _),
    roles_append_run (left + 1) _ (some .lane) hmedian (fun _ => List.cons_ne_nil _ _)
      (head?_reverse_ne_lane houtside),
    roles_reverse houtside, map_between_range' (.inr (by omega)),
    map_between_range' (.inl (by omega))]
  simp

end BandKind

end Roles

/-! ## Lines -/

section Lines

variable {α : Type} {m : MarkingPattern α} {l seen : Nat} {previous : Option BandKind}
  {bands : List (Band α)} {y : Boundary α}

/-- How many of the bands are lanes. -/
def Band.lanes (bands : List (Band α)) : Nat := bands.countP fun b => b.kind = .lane

theorem Band.lanes_cons (b : Band α) (bands : List (Band α)) :
    lanes (b :: bands) = lanes bands + if b.kind = .lane then 1 else 0 := by
  simp [lanes, List.countP_cons]

theorem Band.lanes_append (bands bands' : List (Band α)) :
    lanes (bands ++ bands') = lanes bands + lanes bands' := List.countP_append

namespace CrossSection

theorem map_role_linesFrom (m : MarkingPattern α) (l seen : Nat) (previous : Option BandKind)
    (bands : List (Band α)) :
    (linesFrom m l seen previous bands).map (·.role) =
      BandKind.roles l seen previous (bands.map (·.kind)) := by
  induction bands generalizing seen previous with
  | nil => rfl
  | cons b bands ih =>
      rw [linesFrom, List.map_cons, BandKind.roles, List.head?_map]
      split
      · simp only [List.map_cons, List.map_append, ih, BoundaryRole.between]
        split_ifs <;> rfl
      · exact ih ..

/-- Where a line comes from: it lies at the left edge of a lane, or at the right edge of one. -/
theorem mem_linesFrom_cons {b : Band α}
    (h : y ∈ linesFrom m l seen previous (b :: bands)) :
    b.kind = .lane ∧ y.style = m.styleOf y.role ∧
      (y.offset = b.left ∧ (y.role = .centre → seen = l) ∨
        y.offset = b.right ∧ y.role = .edge ∧ bands.head?.map (·.kind) ≠ some .lane) ∨
    y ∈ linesFrom m l (if b.kind = .lane then seen + 1 else seen) (some b.kind) bands := by
  rw [linesFrom] at h
  split at h
  · next hlane =>
      simp only [List.cons_append, List.mem_cons, List.mem_append] at h
      rcases h with rfl | hlast | h
      · refine .inl ⟨hlane, ?_, .inl ⟨?_, ?_⟩⟩
        · split_ifs <;> rfl
        · split_ifs <;> rfl
        · split_ifs with _ hseen
          · exact fun _ => hseen
          · rintro ⟨⟩
          · rintro ⟨⟩
      · split_ifs at hlast with hnext
        · cases hlast
        · rw [List.mem_singleton.mp hlast]
          exact .inl ⟨hlane, rfl, .inr ⟨rfl, rfl, hnext⟩⟩
      · rw [if_pos hlane, hlane]
        exact .inr h
  · next hother =>
      rw [if_neg hother]
      exact .inr h

theorem style_of_mem_linesFrom (h : y ∈ linesFrom m l seen previous bands) :
    y.style = m.styleOf y.role := by
  induction bands generalizing seen previous with
  | nil => cases h
  | cons b bands ih =>
      rcases mem_linesFrom_cons h with ⟨_, hstyle, _⟩ | h
      · exact hstyle
      · exact ih h

theorem exists_lane_of_mem_linesFrom (h : y ∈ linesFrom m l seen previous bands) :
    ∃ b ∈ bands, b.kind = .lane ∧ (y.offset = b.left ∨ y.offset = b.right) := by
  induction bands generalizing seen previous with
  | nil => cases h
  | cons b bands ih =>
      rcases mem_linesFrom_cons h with ⟨hlane, _, hedge⟩ | h
      · exact ⟨b, List.mem_cons_self, hlane, hedge.imp And.left And.left⟩
      · obtain ⟨c, hc, hedge⟩ := ih h
        exact ⟨c, List.mem_cons_of_mem b hc, hedge⟩

/-- The centre line lies at the left edge of a lane, with the lanes of the left side before it. -/
theorem exists_append_of_mem_linesFrom (h : y ∈ linesFrom m l seen previous bands)
    (hrole : y.role = .centre) : ∃ before b after, bands = before ++ b :: after ∧
      b.kind = .lane ∧ y.offset = b.left ∧ seen + Band.lanes before = l := by
  induction bands generalizing seen previous with
  | nil => cases h
  | cons b bands ih =>
      rcases mem_linesFrom_cons h with ⟨hlane, _, ⟨hleft, hseen⟩ | ⟨_, hedge, _⟩⟩ | h
      · exact ⟨[], b, bands, rfl, hlane, hleft, hseen hrole⟩
      · rw [hedge] at hrole
        cases hrole
      · obtain ⟨before, c, after, rfl, hlane, hleft, hseen⟩ := ih h
        refine ⟨b :: before, c, after, rfl, hlane, hleft, ?_⟩
        rw [Band.lanes_cons]
        split_ifs at hseen ⊢ <;> omega

end CrossSection

end Lines

section Profiles

variable {α : Type} [Scalar α]

/-- What the lines of a style separate, from left to right. -/
def StyleProfile.roles (p : StyleProfile α) : List BoundaryRole :=
  let left := CrossSection.leftLanes p
  let dividers (lanes : Nat) : List BoundaryRole := List.replicate (lanes - 1) .laneDivider
  let between : List BoundaryRole := if p.medianWidth.isSome then [.edge, .edge] else [.centre]
  if p.laneCount = 1 then [.edge, .edge]
  else [.edge] ++ dividers left ++ between ++ dividers (p.laneCount.toNat - left) ++ [.edge]

theorem StyleProfile.laneCount_ne_zero {p : StyleProfile α} (h : p.fault? = none) :
    p.laneCount ≠ 0 := by
  intro hzero
  rw [fault?, if_pos hzero] at h
  cases h

namespace CrossSection

variable {p : StyleProfile α}

/-- The lines of a style before those are left out that nothing is painted for. -/
def lines (p : StyleProfile α) : List (Boundary α) :=
  linesFrom p.markings (leftLanes p) 0 none (ofProfile p).bands

theorem boundaries_ofProfile (p : StyleProfile α) :
    (ofProfile p).boundaries = (lines p).filter fun y => y.style != .none := rfl

/-- The lines of a style are the right ones, in the right places. -/
structure IsLined (p : StyleProfile α) : Prop where
  roles_eq : (lines p).map (·.role) = p.roles
  style_eq : ∀ y ∈ lines p, y.style = p.markings.styleOf y.role
  boundaries_eq : (ofProfile p).boundaries = (lines p).filter fun y => y.style != .none
  offset_eq : ∀ y ∈ lines p, ∃ b ∈ (ofProfile p).bands, b.kind = .lane ∧
    (y.offset = b.left ∨ y.offset = b.right)
  /-- The centre line cuts the bands between the lanes of the two sides. -/
  centre : ∀ y ∈ lines p, y.role = .centre → ∃ before b after,
    (ofProfile p).bands = before ++ b :: after ∧ b.kind = .lane ∧ y.offset = b.left ∧
      Band.lanes before = leftLanes p ∧
      Band.lanes (b :: after) = p.laneCount.toNat - leftLanes p

theorem ne_lane_of_mem_margin {k : BandKind} (h : k ∈ (margin p).map (·.1)) : k ≠ .lane := by
  obtain ⟨s, hs, rfl⟩ := List.mem_map.mp h
  rcases List.mem_append.mp hs with hs | hs
  · cases hc : p.curb with
    | none =>
        rw [hc] at hs
        cases hs
    | some c =>
        rw [hc] at hs
        rcases List.mem_append.mp hs with hs | hs
        · split_ifs at hs
          · rw [List.mem_singleton.mp hs]
            nofun
          · cases hs
        · rw [List.mem_singleton.mp hs]
          nofun
  · obtain ⟨w, _, rfl⟩ := List.mem_map.mp hs
    nofun

/-- There are as many lanes as the style says. -/
theorem lanes_ofProfile (p : StyleProfile α) :
    Band.lanes (ofProfile p).bands = p.laneCount.toNat := by
  have hmargin : ((margin p).map (·.1)).count .lane = 0 :=
    List.count_eq_zero.mpr fun h => ne_lane_of_mem_margin h rfl
  have hmedian : ((p.medianWidth.map fun _ => BandKind.median).toList).count .lane = 0 := by
    cases p.medianWidth <;> rfl
  have hcount : Band.lanes (ofProfile p).bands =
      ((ofProfile p).bands.map (·.kind)).count .lane := by
    rw [List.count, List.countP_map]
    rfl
  rw [hcount, kinds_ofProfile]
  simp only [List.count_append, List.count_reverse, hmargin, hmedian, List.count_replicate_self]
  omega

theorem map_role_lines (h : p.laneCount ≠ 0) : (lines p).map (·.role) = p.roles := by
  have hcount : p.laneCount.toNat ≠ 0 := fun hzero => h (UInt32.toNat_inj.mp hzero)
  have hone : p.laneCount = 1 ↔ p.laneCount.toNat = 1 := UInt32.toNat_inj.symm
  have houtside (k : BandKind) (hk : k ∈ (margin p).map (·.1)) := ne_lane_of_mem_margin hk
  have hmedian (k : BandKind) (hk : k ∈ (p.medianWidth.map fun _ => BandKind.median).toList) :
      k ≠ .lane := by
    obtain ⟨w, _, rfl⟩ := Option.map_eq_some_iff.mp (Option.mem_toList.mp hk)
    nofun
  rw [lines, map_role_linesFrom, kinds_ofProfile, StyleProfile.roles]
  split
  · next hsingle =>
      have hzero : leftLanes p = 0 := by
        rw [leftLanes, hone.mp hsingle]
      rw [hzero, hone.mp hsingle, List.replicate_zero, List.append_nil]
      exact BandKind.roles_single houtside hmedian
  · next hmany =>
      have hboth : leftLanes p ≠ 0 ∧ p.laneCount.toNat - leftLanes p ≠ 0 := by
        rw [hone] at hmany
        rw [leftLanes]
        omega
      rw [← leftLanes]
      cases p.medianWidth with
      | none =>
          rw [Option.map_none, Option.toList_none, List.append_nil]
          exact BandKind.roles_without_median houtside hboth.1 hboth.2
      | some w => exact BandKind.roles_around_median houtside hboth.1 hboth.2

theorem isLined (h : p.laneCount ≠ 0) : IsLined p where
  roles_eq := map_role_lines h
  style_eq _ hy := style_of_mem_linesFrom hy
  boundaries_eq := boundaries_ofProfile p
  offset_eq _ hy := exists_lane_of_mem_linesFrom hy
  centre y hy hrole := by
    obtain ⟨before, b, after, hbands, hlane, hoffset, hseen⟩ :=
      exists_append_of_mem_linesFrom hy hrole
    refine ⟨before, b, after, hbands, hlane, hoffset, by omega, ?_⟩
    have hlanes := lanes_ofProfile p
    rw [hbands, Band.lanes_append] at hlanes
    omega

end CrossSection

end Profiles

/-! ## Offsets -/

/-- Where the bands are cut, those before lie to the left of the cut and the others to its right. -/
theorem Band.Tile.filter_append {left right : ℝ} {before after : List (Band ℝ)} {b : Band ℝ}
    (h : Tile left (before ++ b :: after) right) :
    ((before ++ b :: after).filter fun c => b.left ≤ c.right) = before ∧
      ((before ++ b :: after).filter fun c => c.left ≤ b.left) = b :: after := by
  have hsides : (∀ c ∈ before, b.left ≤ c.right ∧ b.left < c.left) ∧
      ∀ c ∈ b :: after, c.right < b.left ∧ c.left ≤ b.left := by
    induction before generalizing left with
    | nil =>
        have hstart : b.left = left := h.1
        refine ⟨by simp, fun c hc => ?_⟩
        obtain ⟨_, hwide, hlow⟩ := h.bounds.2 c hc
        rw [hstart]
        exact ⟨hwide.trans_le hlow, hlow⟩
    | cons c before ih =>
        obtain ⟨rfl, hwide, htile⟩ := h
        obtain ⟨hbefore, hafter⟩ := ih htile
        have hright : b.left ≤ c.right := (htile.bounds.2 b (by simp)).2.2
        exact ⟨List.forall_mem_cons.mpr ⟨⟨hright, hright.trans_lt hwide⟩, hbefore⟩, hafter⟩
  obtain ⟨hbefore, hafter⟩ := hsides
  rw [List.filter_append, List.filter_append]
  constructor
  · rw [List.filter_eq_self.mpr fun c hc => decide_eq_true (hbefore c hc).1,
      List.filter_eq_nil_iff.mpr fun c hc => by simpa using (hafter c hc).1, List.append_nil]
  · rw [List.filter_eq_nil_iff.mpr fun c hc => by simpa using (hbefore c hc).2,
      List.filter_eq_self.mpr fun c hc => decide_eq_true (hafter c hc).2, List.nil_append]

namespace CrossSection

variable {m : MarkingPattern ℝ} {l seen : Nat} {previous : Option BandKind}
  {bands : List (Band ℝ)} {left right : ℝ} {y : Boundary ℝ} {p : StyleProfile ℝ}

/-- No line lies beyond the start of the bands, and only that of a lane lies at it. -/
theorem offset_le_of_mem_linesFrom (htile : Band.Tile left bands right)
    (h : y ∈ linesFrom m l seen previous bands) :
    y.offset ≤ left ∧ (bands.head?.map (·.kind) ≠ some .lane → y.offset < left) := by
  induction bands generalizing left seen previous with
  | nil => cases h
  | cons b bands ih =>
      obtain ⟨rfl, hwide, htile⟩ := htile
      rcases mem_linesFrom_cons h with ⟨hlane, _, ⟨hleft, _⟩ | ⟨hright, _, _⟩⟩ | h
      · exact ⟨hleft.le, fun hother => absurd (congrArg some hlane) hother⟩
      · exact ⟨hright.trans_le hwide.le, fun _ => hright.trans_lt hwide⟩
      · have hlow := (ih htile h).1.trans_lt hwide
        exact ⟨hlow.le, fun _ => hlow⟩

/-- The lines come in order from left to right. -/
theorem pairwise_linesFrom (htile : Band.Tile left bands right) :
    (linesFrom m l seen previous bands).Pairwise fun y z => z.offset < y.offset := by
  induction bands generalizing left seen previous with
  | nil => exact .nil
  | cons b bands ih =>
      obtain ⟨rfl, hwide, htile⟩ := htile
      rw [linesFrom]
      split
      · have hbelow (z : Boundary ℝ)
            (hz : z ∈ linesFrom m l (seen + 1) (some .lane) bands) :=
          offset_le_of_mem_linesFrom htile hz
        rw [List.cons_append, List.pairwise_cons]
        refine ⟨fun z hz => ?_, ?_⟩
        · have hstart : z.offset ≤ b.right := by
            rcases List.mem_append.mp hz with hlast | hz
            · split_ifs at hlast
              · cases hlast
              · exact (congrArg Boundary.offset (List.mem_singleton.mp hlast)).le
            · exact (hbelow z hz).1
          split_ifs <;> exact hstart.trans_lt hwide
        · split
          · exact ih htile
          · next hnext => exact List.pairwise_cons.mpr ⟨fun z hz => (hbelow z hz).2 hnext, ih htile⟩
      · exact ih htile

/-- The lines of a style lie apart from each other, with the centre line between the lanes of the
two sides. -/
structure IsOrdered (p : StyleProfile ℝ) : Prop where
  pairwise : (lines p).Pairwise fun y z => z.offset < y.offset
  lanes_left : ∀ y ∈ lines p, y.role = .centre →
    Band.lanes ((ofProfile p).bands.filter fun b => y.offset ≤ b.right) = leftLanes p
  lanes_right : ∀ y ∈ lines p, y.role = .centre →
    Band.lanes ((ofProfile p).bands.filter fun b => b.left ≤ y.offset) =
      p.laneCount.toNat - leftLanes p

theorem isOrdered (h : p.fault? = none) : IsOrdered p := by
  have htile := tile_ofProfile h
  have hlined := isLined (StyleProfile.laneCount_ne_zero h)
  refine ⟨pairwise_linesFrom htile, fun y hy hrole => ?_, fun y hy hrole => ?_⟩
  · obtain ⟨before, b, after, hbands, _, hoffset, hlanes, _⟩ := hlined.centre y hy hrole
    rw [hbands] at htile ⊢
    rwa [hoffset, htile.filter_append.1]
  · obtain ⟨before, b, after, hbands, _, hoffset, _, hlanes⟩ := hlined.centre y hy hrole
    rw [hbands] at htile ⊢
    rwa [hoffset, htile.filter_append.2]

/-- The lines of a style that can be built have the right roles and styles, each of them lies at an
edge of a lane, and the centre line between the lanes of the two sides. In exact arithmetic their
offsets decrease from left to right. -/
theorem lines_separate_lanes :
    (∀ {α : Type} [Scalar α] (p : StyleProfile α), p.fault? = none → IsLined p) ∧
      ∀ p : StyleProfile ℝ, p.fault? = none → IsOrdered p :=
  ⟨fun _ h => isLined (StyleProfile.laneCount_ne_zero h), fun _ h => isOrdered h⟩

/-- A highway has an edge on both sides of its median, two lanes without one a line between them. -/
theorem lines_separate_lanes_highway :
    (StyleCatalog.highway : StyleProfile Float).fault? = none ∧
      (lines (StyleCatalog.highway : StyleProfile Float)).map (·.role) =
        [.edge, .laneDivider, .laneDivider, .edge, .edge, .laneDivider, .laneDivider, .edge] ∧
      (StyleProfile.default : StyleProfile ℝ).fault? = none ∧
      (lines (StyleProfile.default : StyleProfile ℝ)).map (·.role) = [.edge, .centre, .edge] ∧
      IsOrdered .default := by
  have hfault : (StyleCatalog.highway : StyleProfile Float).fault? = none := by
    decide +kernel
  have hdefault := StyleProfile.fault?_default_real
  exact ⟨hfault, (lines_separate_lanes.1 _ hfault).roles_eq, hdefault,
    (lines_separate_lanes.1 _ hdefault).roles_eq, lines_separate_lanes.2 _ hdefault⟩

end CrossSection

end Roadworks
