import Roadworks.Network.Codec
/-! # What a document decodes to

A record is decoded field by field. A measure comes back if it is finite. One that is not makes the
record unreadable, unless it may be missing. -/

namespace Roadworks

variable {α : Type} [Scalar α]

namespace Json

/-! ## Values -/

theorem asMeasure_measure (x : α) :
    (measure x).asMeasure = if Scalar.isFinite x then some x else none := by
  by_cases h : Scalar.isFinite x = true
  · rw [measure, if_pos h, asMeasure]
  · rw [measure, if_neg h, if_neg h]
    rfl

theorem asNullable_measure {o : Option α} (h : ∀ x ∈ o, Scalar.isFinite x = true) :
    asNullable asMeasure (nullable measure o) = some o := by
  cases o with
  | none => rfl
  | some x =>
      have hx := h x rfl
      have hreal : (measure x : Json α) = .real x := if_pos hx
      rw [nullable, hreal, asNullable, asMeasure, if_pos hx]
      · rfl
      · exact nofun

omit [Scalar α] in
theorem asCount_count {bits n : Nat} (h : n < Nat.pow 2 bits) :
    asCount bits (.count n : Json α) = some n := by
  have hpower : Int.pow 2 bits = (Nat.pow 2 bits : Int) := (Int.natCast_pow 2 bits).symm
  have hrange : 0 ≤ (n : Int) ∧ (n : Int) ≤ Int.pow 2 bits - 1 := by omega
  rw [asCount, count, asInteger, if_pos hrange, Option.map_some, Int.toNat_natCast]

omit [Scalar α] in
/-- A list is decoded if each of its items is. -/
theorem asList_array {β : Type} {encode : β → Json α} {decode : Json α → Option β}
    {p : β → Bool} {items : List β}
    (h : ∀ b ∈ items, decode (encode b) = if p b then some b else none) :
    asList decode (.array (items.map encode)) = if items.all p then some items else none := by
  rw [asList]
  induction items with
  | nil => rfl
  | cons b items ih =>
      have hrest := ih fun c hc => h c (List.mem_cons_of_mem _ hc)
      rw [List.map_cons, List.mapM_cons, h b List.mem_cons_self, hrest, List.all_cons]
      cases p b <;> cases items.all p <;> rfl

end Json

/-! ## Records -/

/-- The angles of the rules are finite. -/
def JunctionRules.isFinite (r : JunctionRules α) : Bool :=
  Scalar.isFinite r.passMaxBend && Scalar.isFinite r.circularTolerance

/-- Where the node lies is finite. -/
def NodeRecord.isFinite (r : NodeRecord α) : Bool :=
  Scalar.isFinite r.position.x && Scalar.isFinite r.position.y && Scalar.isFinite r.elevation

/-- Whatever numbers the document needs are finite. -/
def NetworkDocument.isFinite (d : NetworkDocument α) : Bool :=
  d.junctions.all JunctionRules.isFinite && d.nodes.all NodeRecord.isFinite

theorem JunctionRules.ofJson?_toJson {r : JunctionRules α}
    (h : ∀ x ∈ r.radii, Scalar.isFinite x = true) :
    ofJson? r.toJson = if r.isFinite then some r else none := by
  have hfields : ofJson? r.toJson = (do
      let intersectionRadius ← (Json.measure r.intersectionRadius).asMeasure
      let roundaboutRadius ← Json.asNullable Json.asMeasure (Json.nullable .measure r.roundaboutRadius)
      let minRoundaboutDegree ← (Json.asCount 64 (.count r.minRoundaboutDegree.toNat : Json α)).map
        Nat.toUInt64
      let passMaxBend ← (Json.measure r.passMaxBend).asMeasure
      let circularTolerance ← (Json.measure r.circularTolerance).asMeasure
      return ⟨intersectionRadius, roundaboutRadius, minRoundaboutDegree, passMaxBend,
        circularTolerance⟩) := rfl
  have hradius : Scalar.isFinite r.intersectionRadius = true := h _ List.mem_cons_self
  have hround : ∀ x ∈ r.roundaboutRadius, Scalar.isFinite x = true := fun x hx =>
    h x (List.mem_cons_of_mem _ (Option.mem_toList.mpr hx))
  have hdegree : r.minRoundaboutDegree.toNat.toUInt64 = r.minRoundaboutDegree :=
    UInt64.ofNat_toNat
  rw [hfields, Json.asMeasure_measure, if_pos hradius, Json.asNullable_measure hround,
    Json.asCount_count r.minRoundaboutDegree.toNat_lt, Json.asMeasure_measure,
    Json.asMeasure_measure, Option.map_some, hdegree, isFinite]
  cases Scalar.isFinite r.passMaxBend <;> cases Scalar.isFinite r.circularTolerance <;> rfl

theorem NodeRecord.ofJson?_toJson (r : NodeRecord α) :
    ofJson? r.toJson = if r.isFinite then some r else none := by
  have hfields : r.toJson.asRecord ["id", "position"] = some [
      ("id", .text r.id),
      ("position", .array ([r.position.x, r.position.y, r.elevation].map Json.measure))] := rfl
  have hid (fields : List (String × Json α)) :
      Json.required (("id", .text r.id) :: fields) "id" Json.asText = some r.id := rfl
  have hposition (v w : Json α) : Json.required [("id", w), ("position", v)] "position"
      (Json.asList Json.asMeasure) = Json.asList Json.asMeasure v := rfl
  rw [ofJson?, hfields, Option.bind_eq_bind, Option.bind_some, hid, Option.bind_eq_bind,
    Option.bind_some, hposition, Json.asList_array fun x _ => Json.asMeasure_measure x, isFinite]
  simp only [List.all_cons, List.all_nil, Bool.and_true, Bool.and_assoc]
  split <;> rfl

omit [Scalar α] in
theorem SegmentRecord.ofJson?_toJson (r : SegmentRecord) :
    ofJson? (r.toJson : Json α) = some r :=
  rfl

theorem IntersectionRecord.ofJson?_toJson (r : IntersectionRecord α) :
    ofJson? r.toJson = if Scalar.isFinite r.radius then some r else none := by
  have hfields : ofJson? r.toJson = (do
      let kind ← IntersectionType.byName.lookup r.kind.name
      let radius ← (Json.measure r.radius).asMeasure
      return ⟨r.node, kind, radius⟩) := rfl
  rw [hfields, IntersectionType.lookup_name, Json.asMeasure_measure]
  split <;> rfl

/-! ## The whole document -/

namespace NetworkDocument

/-- The tolerance and the radii that a document gives are finite. -/
structure HasFiniteSettings (d : NetworkDocument α) : Prop where
  tolerance : ∀ t ∈ d.mergeTolerance, Scalar.isFinite t = true
  radii : ∀ r ∈ d.junctions, ∀ x ∈ r.radii, Scalar.isFinite x = true
  radius : ∀ r ∈ d.intersections, Scalar.isFinite r.radius = true

theorem asNullable_junctions {o : Option (JunctionRules α)}
    (h : ∀ r ∈ o, ∀ x ∈ r.radii, Scalar.isFinite x = true) :
    Json.asNullable JunctionRules.ofJson? (Json.nullable JunctionRules.toJson o) =
      if o.all JunctionRules.isFinite then some o else none := by
  cases o with
  | none => rfl
  | some r =>
      have hrules : Json.asNullable JunctionRules.ofJson? r.toJson =
          (JunctionRules.ofJson? r.toJson).map some := rfl
      rw [Json.nullable, hrules, JunctionRules.ofJson?_toJson (h r rfl), Option.all_some]
      split <;> rfl

/-- A document is decoded to itself if its numbers are finite. -/
theorem ofJson?_toJson {d : NetworkDocument α} (h : d.HasFiniteSettings) :
    ofJson? d.toJson = if d.isFinite then some d else none := by
  have hfields : ofJson? d.toJson = (do
      let mergeTolerance ← Json.asNullable Json.asMeasure (Json.nullable .measure d.mergeTolerance)
      let junctions ← Json.asNullable JunctionRules.ofJson?
        (Json.nullable JunctionRules.toJson d.junctions)
      let nodes ← Json.asList NodeRecord.ofJson? (.array (d.nodes.map NodeRecord.toJson))
      let segments ← Json.asList SegmentRecord.ofJson?
        (.array (d.segments.map SegmentRecord.toJson) : Json α)
      let intersections ← Json.asList IntersectionRecord.ofJson?
        (.array (d.intersections.map IntersectionRecord.toJson))
      return ⟨d.name, mergeTolerance, junctions, nodes, segments, intersections⟩) := by
    cases d with
    | mk name mergeTolerance junctions nodes segments intersections =>
        cases mergeTolerance <;> cases junctions <;> rfl
  have hsegments : d.segments.all (fun _ => true) = true := List.all_eq_true.mpr fun _ _ => rfl
  have hradius : d.intersections.all (fun r => Scalar.isFinite r.radius) = true :=
    List.all_eq_true.mpr h.radius
  rw [hfields, Json.asNullable_measure h.tolerance, asNullable_junctions h.radii,
    Json.asList_array fun r _ => r.ofJson?_toJson,
    Json.asList_array (p := fun _ => true) fun r _ => r.ofJson?_toJson, if_pos hsegments,
    Json.asList_array fun r _ => r.ofJson?_toJson, if_pos hradius, isFinite]
  cases d.junctions.all JunctionRules.isFinite <;> cases d.nodes.all NodeRecord.isFinite <;> rfl

end NetworkDocument

end Roadworks
