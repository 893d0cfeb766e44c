import Mathlib.Data.List.Forall2
import Mathlib.Data.List.Nodup
import Mathlib.Logic.Relation
import Roadworks.Proofs.Document.Decoding
/-! # Records that say the same

A record may leave out a field that has its default, and it may say more than a decoder asks for. A
codec that loses nothing decodes all of these to the same, and lists, maps and records of what such
codecs encode lose nothing either. -/

namespace Roadworks

namespace Json

variable {α β : Type}

/-! ## What may be changed -/

/-- How one value may take the place of another. -/
abbrev Change (α : Type) := Json α → Json α → Prop

/-- What is said about a field of a record: the value that it may be left out with, if it may, and
how its value may be changed. -/
structure Field (α : Type) where
  default? : Option (Json α)
  change : Change α

/-- The fields of a record by name. -/
abbrev Shape (α : Type) := List (String × Field α)

/-- A value that is not made of others stays as it is. -/
def Change.none : Change α := fun _ _ => False

/-- The items of a list may be changed. -/
def Change.list (change : Change α) : Change α := fun v w =>
  ∃ vs ws, v = .array vs ∧ w = .array ws ∧ List.Forall₂ (Relation.ReflGen change) vs ws

/-- The values of a map may be changed. -/
def Change.map (change : Change α) : Change α := fun v w =>
  ∃ vs ws, v = .record vs ∧ w = .record ws ∧
    List.Forall₂ (fun p q => p.1 = q.1 ∧ Relation.ReflGen change p.2 q.2) vs ws

/-- A field stays, its value changed or not, or it is left out with its default; fields that the
record does not have may come in anywhere. -/
inductive Amends (shape : Shape α) : List (String × Json α) → List (String × Json α) → Prop where
  | done : Amends shape [] []
  | keep {name : String} {field : Field α} {v w : Json α} {vs ws : List (String × Json α)}
      (hfield : shape.lookup name = some field) (hvalue : Relation.ReflGen field.change v w)
      (rest : Amends shape vs ws) : Amends shape ((name, v) :: vs) ((name, w) :: ws)
  | leaveOut {name : String} {field : Field α} {v : Json α} {vs ws : List (String × Json α)}
      (hfield : shape.lookup name = some field) (hvalue : field.default? = some v)
      (rest : Amends shape vs ws) : Amends shape ((name, v) :: vs) ws
  | add {name : String} {w : Json α} {vs ws : List (String × Json α)}
      (hname : shape.lookup name = .none) (rest : Amends shape vs ws) :
      Amends shape vs ((name, w) :: ws)

/-- The fields of a record may be amended. -/
def Change.record (shape : Shape α) : Change α := fun v w =>
  ∃ vs ws, v = .record vs ∧ w = .record ws ∧ Amends shape vs ws

/-- A field that must be there. -/
def Field.required (change : Change α) : Field α := ⟨.none, change⟩

/-- A field that may be left out with its default. -/
def Field.optional (default : Json α) (change : Change α) : Field α := ⟨some default, change⟩

/-- What was encoded is decoded to what it was, also after a change. -/
structure IsLossless (encode : β → Json α) (decode : Json α → Option β) (change : Change α)
    (b : β) : Prop where
  round_trip : decode (encode b) = some b
  changed : ∀ w, change (encode b) w → decode w = some b

namespace IsLossless

variable {encode : β → Json α} {decode : Json α → Option β} {change : Change α} {b : β}

theorem decode_eq (h : IsLossless encode decode change b) {w : Json α}
    (hw : Relation.ReflGen change (encode b) w) : decode w = some b := by
  cases hw with
  | refl => exact h.round_trip
  | single hw => exact h.changed w hw

/-- What is not made of other values only has to come back. -/
theorem of_round_trip (h : decode (encode b) = some b) :
    IsLossless encode decode .none b :=
  ⟨h, fun _ => False.elim⟩

/-! ## Lists and maps -/

theorem mapM_eq_some {β γ : Type} {f : β → Option γ} {xs : List β} {ys : List γ}
    (h : List.Forall₂ (fun y x => f x = some y) ys xs) : xs.mapM f = some ys := by
  induction h with
  | nil => rfl
  | cons hx _ ih => simp [List.mapM_cons, hx, ih]

theorem mapM_eq {items : List β} (h : ∀ b ∈ items, IsLossless encode decode change b)
    {ws : List (Json α)} (hws : List.Forall₂ (Relation.ReflGen change) (items.map encode) ws) :
    ws.mapM decode = some items := by
  have hboth := (List.forall₂_and_left _ _).mpr ⟨h, List.forall₂_map_left_iff.mp hws⟩
  exact mapM_eq_some (hboth.imp fun _ _ hb => hb.1.decode_eq hb.2)

theorem array {items : List β} (h : ∀ b ∈ items, IsLossless encode decode change b) :
    IsLossless (fun items => .array (items.map encode)) (asList decode) (.list change) items := by
  constructor
  case round_trip => exact mapM_eq h (List.forall₂_same.mpr fun _ _ => .refl)
  case changed =>
    intro w hw
    obtain ⟨vs, ws, hvs, rfl, hws⟩ := hw
    obtain rfl : items.map encode = vs := by simpa using hvs
    exact mapM_eq h hws

theorem mapM_entries_eq {κ : Type} {write : κ → String} {read : String → Option κ}
    (hkey : ∀ k, read (write k) = some k) {entries : List (κ × β)}
    (h : ∀ e ∈ entries, IsLossless encode decode change e.2) {ws : List (String × Json α)}
    (hws : List.Forall₂ (fun p q => p.1 = q.1 ∧ Relation.ReflGen change p.2 q.2)
      (entries.map fun e => (write e.1, encode e.2)) ws) :
    (ws.mapM fun (name, v) => do return (← read name, ← decode v)) = some entries := by
  have hboth := (List.forall₂_and_left _ _).mpr ⟨h, List.forall₂_map_left_iff.mp hws⟩
  refine mapM_eq_some (hboth.imp fun e w hw => ?_)
  obtain ⟨hvalue, hname, hw⟩ := hw
  simp [← hname, hkey, hvalue.decode_eq hw]

/-- A missing value is `null`, which no value is changed to. -/
theorem nullable {o : Option β} (h : ∀ b ∈ o, IsLossless encode decode change b)
    (hnull : decode .null = .none) (hchange : ∀ w, ¬ change .null w) :
    IsLossless (Json.nullable encode) (asNullable decode) change o := by
  have hsome {w : Json α} {b : β} (hw : decode w = some b) :
      asNullable decode w = some (some b) := by
    cases w with
    | null => exact absurd hw (by simp [hnull])
    | _ => simp [asNullable, hw]
  cases o with
  | none => exact ⟨rfl, fun w hw => absurd hw (hchange w)⟩
  | some b => exact ⟨hsome (h b rfl).round_trip, fun w hw => hsome ((h b rfl).changed w hw)⟩

end IsLossless

theorem record_injective : Function.Injective (record : List (String × Json α) → Json α) := by
  intro vs ws h
  rw [record, record, Json.object.injEq] at h
  refine List.map_injective_iff.mpr (fun p q hpq => ?_) h
  simpa [Prod.ext_iff] using hpq

theorem asFields_record (vs : List (String × Json α)) : (record vs).asFields = some vs := by
  rw [record, asFields]
  induction vs with
  | nil => rfl
  | cons v vs ih => simp [List.mapM_cons, ih]

namespace IsLossless

variable {κ : Type} [LT κ] [DecidableLT κ] [Trans (α := κ) (· < ·) (· < ·) (· < ·)]
  [Std.Irrefl (α := κ) (· < ·)]
  {encode : β → Json α} {decode : Json α → Option β} {change : Change α} {b : β}
  {write : κ → String} {read : String → Option κ}

theorem dictionary (hkey : ∀ k, read (write k) = some k) {d : Dictionary κ β}
    (h : ∀ e ∈ d.entries, IsLossless encode decode change e.2) :
    IsLossless (fun d : Dictionary κ β => .record (d.entries.map fun e => (write e.1, encode e.2)))
      (asDictionary read decode) (.map change) d := by
  have hdecode {ws : List (String × Json α)}
      (hws : List.Forall₂ (fun p q => p.1 = q.1 ∧ Relation.ReflGen change p.2 q.2)
        (d.entries.map fun e => (write e.1, encode e.2)) ws) :
      asDictionary read decode (.record ws) = some d := by
    rw [asDictionary, asFields_record, Option.bind_eq_bind, Option.bind_some,
      mapM_entries_eq hkey h hws, Option.bind_eq_bind, Option.bind_some, Dictionary.ofList_entries]
    rfl
  constructor
  case round_trip => exact hdecode (List.forall₂_same.mpr fun _ _ => ⟨rfl, .refl⟩)
  case changed =>
    intro w hw
    obtain ⟨vs, ws, hvs, rfl, hws⟩ := hw
    obtain rfl := record_injective hvs
    exact hdecode hws

end IsLossless

/-! ## Records -/

namespace Amends

variable {shape : Shape α} {vs ws : List (String × Json α)} {name : String} {v : Json α}
  {field : Field α}

/-- A record is amended by changing nothing. -/
theorem refl (h : ∀ p ∈ vs, ∃ field, shape.lookup p.1 = some field) : Amends shape vs vs := by
  induction vs with
  | nil => exact .done
  | cons p vs ih =>
      obtain ⟨⟨field, hfield⟩, hrest⟩ := List.forall_mem_cons.mp h
      exact .keep hfield .refl (ih hrest)

/-- No field of the shape is given more often than before. -/
theorem countP_le (h : Amends shape vs ws) (hfield : shape.lookup name = some field) :
    ws.countP (·.1 == name) ≤ vs.countP (·.1 == name) := by
  induction h with
  | done => exact Nat.le_refl _
  | keep _ _ _ ih =>
      rw [List.countP_cons, List.countP_cons]
      exact Nat.add_le_add_right ih _
  | leaveOut _ _ _ ih =>
      rw [List.countP_cons]
      exact Nat.le_trans ih (Nat.le_add_right _ _)
  | @add other _ _ _ hother _ ih =>
      have hne : (other == name) = false := by
        rw [beq_eq_false_iff_ne]
        rintro rfl
        simp [hfield] at hother
      rwa [List.countP_cons, hne, if_neg Bool.false_ne_true, Nat.add_zero]

theorem lookup_eq_none (h : Amends shape vs ws) (hfield : shape.lookup name = some field)
    (hv : vs.lookup name = .none) : ws.lookup name = .none := by
  have hcount : vs.countP (·.1 == name) = 0 := by
    rw [List.countP_eq_zero]
    intro p hp hname
    have hne := List.lookup_eq_none_iff.mp hv p hp
    simp_all
  have hnone := List.countP_eq_zero.mp (Nat.le_zero.mp (hcount ▸ h.countP_le hfield))
  rw [List.lookup_eq_none_iff]
  intro p hp
  have hne := hnone p hp
  rw [bne_iff_ne]
  rintro rfl
  exact hne (beq_self_eq_true _)

/-- A field is still there, its value changed or not, or it was left out with its default. -/
theorem lookup (h : Amends shape vs ws) (hnames : (vs.map Prod.fst).Nodup)
    (hfield : shape.lookup name = some field) (hv : vs.lookup name = some v) :
    (∃ w, ws.lookup name = some w ∧ Relation.ReflGen field.change v w) ∨
      ws.lookup name = .none ∧ field.default? = some v := by
  induction h with
  | done => cases hv
  | @keep other _ _ _ _ _ hother hvalue _ ih =>
      obtain ⟨_, hnames⟩ := List.nodup_cons.mp hnames
      rw [List.lookup_cons] at hv ⊢
      by_cases hname : name = other
      · subst hname
        obtain rfl := Option.some.inj (hfield.symm.trans hother)
        rw [beq_self_eq_true] at hv ⊢
        obtain rfl := Option.some.inj hv
        exact .inl ⟨_, rfl, hvalue⟩
      · rw [beq_false_of_ne hname] at hv ⊢
        exact ih hnames hv
  | @leaveOut other _ _ _ _ hother hvalue rest ih =>
      obtain ⟨hfresh, hnames⟩ := List.nodup_cons.mp hnames
      rw [List.lookup_cons] at hv
      by_cases hname : name = other
      · subst hname
        obtain rfl := Option.some.inj (hfield.symm.trans hother)
        rw [beq_self_eq_true] at hv
        obtain rfl := Option.some.inj hv
        refine .inr ⟨rest.lookup_eq_none hfield (List.lookup_eq_none_iff.mpr fun p hp => ?_), hvalue⟩
        rw [bne_iff_ne]
        rintro rfl
        have hmem : p.1 ∈ _ := List.mem_map_of_mem (f := Prod.fst) hp
        exact hfresh hmem
      · rw [beq_false_of_ne hname] at hv
        exact ih hnames hv
  | @add other _ _ _ hother _ ih =>
      have hne : name ≠ other := by
        rintro rfl
        simp [hfield] at hother
      rw [List.lookup_cons, beq_false_of_ne hne]
      exact ih hnames hv

end Amends

/-- Fields that are given once are amended. -/
structure IsRevision (shape : Shape α) (vs ws : List (String × Json α)) : Prop where
  nodup : (vs.map Prod.fst).Nodup
  amends : Amends shape vs ws

namespace IsRevision

variable {shape : Shape α} {vs ws : List (String × Json α)} {name : String}
  {encode : β → Json α} {decode : Json α → Option β} {change : Change α} {default b : β}

/-- No field of the shape is given twice. -/
theorem asRecord_eq (h : IsRevision shape vs ws) :
    (record ws).asRecord (shape.map Prod.fst) = some ws := by
  have honce : ((shape.map Prod.fst).all fun name =>
      decide ((ws.filter (·.1 == name)).length ≤ 1)) = true := by
    rw [List.all_eq_true]
    intro name hname
    obtain ⟨p, hp, rfl⟩ := List.mem_map.mp hname
    obtain ⟨field, hfield⟩ := Option.isSome_iff_exists.mp
      (List.lookup_isSome_iff.mpr ⟨p, hp, beq_self_eq_true p.1⟩)
    have hcount := List.nodup_iff_count_le_one.mp h.nodup p.1
    rw [List.count_eq_countP, List.countP_map] at hcount
    rw [decide_eq_true_iff, ← List.countP_eq_length_filter]
    exact Nat.le_trans (h.amends.countP_le hfield) hcount
  have hfields : (record ws).asRecord (shape.map Prod.fst) = (record ws).asFields.bind fun fields =>
      if (shape.map Prod.fst).all fun name => decide ((fields.filter (·.1 == name)).length ≤ 1)
      then some fields else .none := rfl
  rw [hfields, asFields_record, Option.bind_some, if_pos honce]

/-- A field that may be left out is found to be what it was. -/
theorem optional_eq (h : IsRevision shape vs ws)
    (hfield : shape.lookup name = some (.optional (encode default) change))
    (hv : vs.lookup name = some (encode b)) (hb : IsLossless encode decode change b)
    (hdefault : decode (encode default) = some default) :
    Json.optional ws name decode default = some b := by
  rw [Json.optional]
  rcases h.amends.lookup h.nodup hfield hv with ⟨w, hw, hchange⟩ | ⟨hnone, hsame⟩
  · rw [hw]
    exact hb.decode_eq hchange
  · have hsame : encode default = encode b := Option.some.inj hsame
    rw [hnone, ← hb.round_trip, ← hsame, hdefault]

/-- A value that may be missing is there only if its field is. -/
theorem optional_nullable_eq {o : Option β} (h : IsRevision shape vs ws)
    (hfield : shape.lookup name = some (.optional .null change))
    (hv : vs.lookup name = o.map encode) (hb : ∀ b ∈ o, IsLossless encode decode change b)
    (hnull : decode .null = none) (hchange : ∀ w, ¬ change .null w) :
    Json.optional ws name (asNullable decode) none = some o := by
  cases o with
  | none => rw [Json.optional, h.amends.lookup_eq_none hfield hv]
  | some b =>
      have hnullable : IsLossless (Json.nullable encode) (asNullable decode) change (some b) :=
        .nullable hb hnull hchange
      have hv : vs.lookup name = some (Json.nullable encode (some b)) := hv
      exact h.optional_eq hfield hv hnullable rfl

theorem required_eq (h : IsRevision shape vs ws)
    (hfield : shape.lookup name = some (.required change))
    (hv : vs.lookup name = some (encode b)) (hb : IsLossless encode decode change b) :
    Json.required ws name decode = some b := by
  rcases h.amends.lookup h.nodup hfield hv with ⟨w, hw, hchange⟩ | ⟨_, hmissing⟩
  · rw [Json.required, hw]
    exact hb.decode_eq hchange
  · cases hmissing

end IsRevision

namespace IsLossless

variable {encode : β → Json α} {decode : Json α → Option β} {b : β} {shape : Shape α}
  {vs : List (String × Json α)}

/-- A record loses nothing if every revision of its fields is decoded to what they were. -/
theorem record (hencode : encode b = .record vs) (hshape : (shape.map Prod.fst).Nodup)
    (hnames : (vs.map Prod.fst).Sublist (shape.map Prod.fst))
    (h : ∀ ws, IsRevision shape vs ws → decode (.record ws) = some b) :
    IsLossless encode decode (.record shape) b := by
  have hnodup := hshape.sublist hnames
  constructor
  case round_trip =>
    rw [hencode]
    refine h vs ⟨hnodup, .refl fun p hp => ?_⟩
    obtain ⟨q, hq, hname⟩ := List.mem_map.mp (hnames.subset (List.mem_map_of_mem hp))
    exact Option.isSome_iff_exists.mp (List.lookup_isSome_iff.mpr ⟨q, hq, beq_iff_eq.mpr hname.symm⟩)
  case changed =>
    intro w hw
    obtain ⟨vs', ws, hvs, rfl, hws⟩ := hw
    obtain rfl := record_injective (hencode.symm.trans hvs)
    exact h ws ⟨hnodup, hws⟩

/-! ## Values of one piece -/

theorem measure [Scalar α] {x : α} (h : Scalar.isFinite x = true) :
    IsLossless Json.measure asMeasure .none x :=
  of_round_trip (by rw [asMeasure_measure, if_pos h])

theorem text (s : String) : IsLossless Json.text asText (.none : Change α) s :=
  of_round_trip rfl

theorem count {bits : Nat} {write : β → Nat} {read : Nat → β} (hwrite : write b < Nat.pow 2 bits)
    (hread : read (write b) = b) :
    IsLossless (fun b => Json.count (write b)) (fun v => (v.asCount bits).map read)
      (.none : Change α) b :=
  of_round_trip (by rw [asCount_count hwrite, Option.map_some, hread])

theorem tag {tags : List (String × β)} {name : β → String} (h : tags.lookup (name b) = some b) :
    IsLossless (fun b => Json.text (name b)) (asTag tags) (.none : Change α) b :=
  of_round_trip h

end IsLossless

/-- No field of a record makes it missing. -/
theorem not_record_null (shape : Shape α) (w : Json α) : ¬ Change.record shape .null w := by
  rintro ⟨vs, ws, hvs, -⟩
  cases hvs

end Json

end Roadworks
