import Roadworks.Network.Exchange
import Roadworks.Proofs.Document.Decoding
import Roadworks.Proofs.Document.RoundTrip
import Roadworks.Proofs.Generator.Outcome
import Roadworks.Proofs.Json.Reading
/-! # Networks that are written and read again

The text of a sound network is read as a document as long as the writer's digits stand for the
numbers that they were made from. It is read as a network with the same document exactly if all
numbers are finite: nothing keeps a turtle from walking out of the finite numbers. -/

namespace Roadworks

/-! ## The text of a document -/

/-- The number is read as it was written, if it is finite and so has digits. -/
def Json.IsExact (x : Float) : Prop :=
  x.isFinite = true → Json.readNumber (Json.measureText x).toList = some (.real x, [])

/-- The measures that rules write. -/
def JunctionRules.measures (r : JunctionRules Float) : List Float :=
  r.radii ++ [r.passMaxBend, r.circularTolerance]

/-- The measures that a node writes. -/
def NodeRecord.measures (r : NodeRecord Float) : List Float :=
  [r.position.x, r.position.y, r.elevation]

/-- The measures that a document writes. -/
def NetworkDocument.measures (d : NetworkDocument Float) : List Float :=
  d.mergeTolerance.toList ++ d.junctions.toList.flatMap JunctionRules.measures ++
    d.nodes.flatMap NodeRecord.measures ++ d.intersections.map (·.radius)

theorem Json.reads_nullable_measure {o : Option Float} (h : ∀ x ∈ o, IsExact x) :
    Reads (nullable measure o) := by
  cases o with
  | none => exact reads_null
  | some x => exact reads_measure (h x rfl)

theorem JunctionRules.reads_toJson {r : JunctionRules Float} (h : ∀ x ∈ r.measures, Json.IsExact x) :
    Json.Reads r.toJson := by
  simp only [measures, radii, List.cons_append, List.forall_mem_cons, List.mem_append,
    Option.mem_toList] at h
  obtain ⟨hradius, hrest⟩ := h
  refine Json.reads_record ?_
  simp only [List.forall_mem_cons, List.not_mem_nil, false_implies, implies_true, and_true]
  refine ⟨Json.reads_measure hradius, Json.reads_nullable_measure fun x hx => hrest x (.inl hx),
    Json.reads_count _, Json.reads_measure ?_, Json.reads_measure ?_⟩
  · exact hrest _ (.inr (by simp))
  · exact hrest _ (.inr (by simp))

theorem NodeRecord.reads_toJson {r : NodeRecord Float} (h : ∀ x ∈ r.measures, Json.IsExact x) :
    Json.Reads r.toJson := by
  have hposition : Json.Reads (.array (r.measures.map Json.measure)) := by
    refine Json.reads_array fun v hv => ?_
    obtain ⟨x, hx, rfl⟩ := List.mem_map.mp hv
    exact Json.reads_measure (h x hx)
  refine Json.reads_record ?_
  simp only [List.forall_mem_cons, List.not_mem_nil, false_implies, implies_true, and_true]
  exact ⟨Json.reads_text _, hposition⟩

theorem SegmentRecord.reads_toJson (r : SegmentRecord) : Json.Reads r.toJson := by
  refine Json.reads_record ?_
  simp only [List.forall_mem_cons, List.not_mem_nil, false_implies, implies_true, and_true]
  exact ⟨Json.reads_text _, Json.reads_text _, Json.reads_text _, Json.reads_text _⟩

theorem IntersectionRecord.reads_toJson {r : IntersectionRecord Float} (h : Json.IsExact r.radius) :
    Json.Reads r.toJson := by
  refine Json.reads_record ?_
  simp only [List.forall_mem_cons, List.not_mem_nil, false_implies, implies_true, and_true]
  exact ⟨Json.reads_text _, Json.reads_text _, Json.reads_measure h⟩

theorem Json.reads_array_map {β : Type} {encode : β → Json Float} {items : List β}
    (h : ∀ b ∈ items, Reads (encode b)) : Reads (.array (items.map encode)) := by
  refine reads_array fun v hv => ?_
  obtain ⟨b, hb, rfl⟩ := List.mem_map.mp hv
  exact h b hb

/-- A document is read as it was written where its measures are. -/
theorem NetworkDocument.reads_toJson {d : NetworkDocument Float}
    (h : ∀ x ∈ d.measures, Json.IsExact x) : Json.Reads d.toJson := by
  simp only [measures, List.mem_append, List.mem_flatMap, List.mem_map, Option.mem_toList] at h
  refine Json.reads_record ?_
  simp only [List.forall_mem_append, List.forall_mem_cons, List.forall_mem_map, List.not_mem_nil,
    false_implies, implies_true, Option.mem_toList, and_true]
  refine ⟨⟨⟨Json.reads_text _, fun t ht => ?_⟩, fun r hr => ?_⟩, ?_, ?_, ?_⟩
  · exact Json.reads_measure (h t (.inl (.inl (.inl ht))))
  · exact JunctionRules.reads_toJson fun x hx => h x (.inl (.inl (.inr ⟨r, hr, hx⟩)))
  · exact Json.reads_array_map fun r hr =>
      NodeRecord.reads_toJson fun x hx => h x (.inl (.inr ⟨r, hr, hx⟩))
  · exact Json.reads_array_map fun r _ => r.reads_toJson
  · exact Json.reads_array_map fun r hr =>
      IntersectionRecord.reads_toJson (h r.radius (.inr ⟨r, hr, rfl⟩))

/-! ## Sound networks -/

theorem JunctionRules.radiusFor_mem_radii (r : JunctionRules Float) (kind : IntersectionType) :
    r.radiusFor kind ∈ r.radii := by
  rw [radii]
  cases kind with
  | roundabout =>
      rw [radiusFor]
      cases r.roundaboutRadius <;> simp
  | pass | threeWay | fourWay => exact List.mem_cons_self

theorem JunctionRules.isFinite_of_badRadius?_eq_none {r : JunctionRules Float}
    (h : r.badRadius? = none) : ∀ x ∈ r.radii, Scalar.isFinite x = true := by
  intro x hx
  have hgood := List.find?_eq_none.mp h x hx
  by_contra hinfinite
  simp [hinfinite] at hgood

namespace Network

variable {n : Network Float}

/-- What the check of a network asks of its tolerance and radii is enough to write them. -/
theorem IsSound.hasFiniteSettings (h : n.IsSound) : n.toDocument.HasFiniteSettings := by
  have hradii := JunctionRules.isFinite_of_badRadius?_eq_none h.badRadius
  constructor
  case tolerance =>
    intro t ht
    obtain rfl := Option.some.inj ht
    exact (Bool.and_eq_true_iff.mp h.isTolerance).1
  case radii =>
    intro r hr
    obtain rfl := Option.some.inj hr
    exact hradii
  case radius =>
    intro r hr
    obtain ⟨⟨i, kind⟩, _, rfl⟩ := List.mem_map.mp hr
    exact hradii _ (n.rules.radiusFor_mem_radii kind)

/-- The text of a sound network is read as the network with its roads drawn anew, unless one of its
numbers is not finite. -/
theorem IsSound.ofText_toText (h : n.IsSound) (hexact : ∀ x ∈ n.toDocument.measures, Json.IsExact x) :
    ofText n.toText = if n.toDocument.isFinite then .ok n.redrawn else .error .notADocument := by
  have hread : Json.read n.toText = some n.toJson :=
    (NetworkDocument.reads_toJson hexact).read_eq
  rw [ofText, hread]
  dsimp only
  rw [ofJson, toJson, NetworkDocument.ofJson?_toJson h.hasFiniteSettings]
  cases n.toDocument.isFinite with
  | false => rfl
  | true =>
      rw [if_pos rfl, if_pos rfl]
      dsimp only
      rw [h.toNetwork_toDocument]
      rfl

end Network

/-- A generated network is written and read again as one with the same document if the places of its
nodes and the angles of its rules are finite. Nothing makes them so: where one of them is not, the
text is refused. -/
theorem generateNetwork_exchange {c : GrammarConfig Float} {o : AssemblyOptions Float}
    {n : Network Float} (hn : generateNetwork c o = .ok n)
    (hexact : ∀ x ∈ n.toDocument.measures, Json.IsExact x) :
    (n.toDocument.isFinite = true →
      ∃ m, Network.ofText n.toText = .ok m ∧ m.toDocument = n.toDocument) ∧
    (n.toDocument.isFinite = false → Network.ofText n.toText = .error .notADocument) := by
  have hread := (Network.IsObtained.generated hn).isSound.ofText_toText hexact
  constructor
  · intro hfinite
    rw [if_pos hfinite] at hread
    exact ⟨n.redrawn, hread, n.toDocument_redrawn⟩
  · intro hinfinite
    rw [hinfinite, if_neg Bool.false_ne_true] at hread
    exact hread

/-! ### Straight roads

One step of ten units ends at a finite place, two steps of `1e308` do not. -/

/-- A grammar that draws a number of steps, one after the other. -/
def straight (steps : Nat) (stepLength : Float) : GrammarConfig Float :=
  { GrammarConfig.default.withProduction 'F' ⟨1.0, ['F']⟩ with
    start := List.replicate steps 'F', iterations := 0, stepLength := stepLength }

/-- The segments of a straight road. -/
def straightRoad (steps : Nat) (stepLength : Float) : List (RoadSegment Float) :=
  Interpreter.interpret ⟨Interpreter.standardOp, Scalar.radians 90.0, stepLength, "local", 1024⟩
    (List.replicate steps 'F')

theorem generateNetwork_straight {steps : Nat} {stepLength : Float} (hsteps : 0 < steps)
    (hturtle : (straight steps stepLength).validateTurtle = .ok ()) :
    generateNetwork (straight steps stepLength) .default =
      .ok (AssemblyOptions.default.network (straightRoad steps stepLength)) := by
  have hexpand : (straight steps stepLength).expand = .ok (List.replicate steps 'F') := by
    cases steps with
    | zero => exact absurd hsteps (Nat.lt_irrefl 0)
    | succ k => rfl
  have hinterpret : (straight steps stepLength).interpret (List.replicate steps 'F') =
      .ok (straightRoad steps stepLength) := by
    rw [GrammarConfig.interpret, Interpreter.ofConfig, hturtle]
    rfl
  have hassemble : AssemblyOptions.default.assemble (straightRoad steps stepLength) =
      .ok (AssemblyOptions.default.network (straightRoad steps stepLength)) :=
    AssemblyOptions.assemble_eq_ok_iff.mpr ⟨AssemblyOptions.isValid_default, rfl⟩
  simp only [generateNetwork, bind_eq_ok_iff, mapError_eq_ok_iff]
  exact ⟨_, hexpand, _, hinterpret, hassemble⟩

/-- The numbers that are written for the two straight roads. -/
def straightMeasures : List Float := [0.0, 0.01, 2.0, 10.0, 20.0, 120.0, 1.0 / 0.0]

theorem isExact_of_straight {d : NetworkDocument Float}
    (h : ∀ x ∈ d.measures, ∃ y ∈ straightMeasures, y = x) : ∀ x ∈ d.measures, Json.IsExact x := by
  have hinfinity : Json.IsExact (1.0 / 0.0) := fun h => absurd h (by decide +kernel)
  have hall : ∀ y ∈ straightMeasures, Json.IsExact y := by
    simp only [straightMeasures, List.forall_mem_cons, List.not_mem_nil, false_implies,
      implies_true, and_true]
    exact ⟨fun _ => rfl, fun _ => rfl, fun _ => rfl, fun _ => rfl, fun _ => rfl, fun _ => rfl,
      hinfinity⟩
  intro x hx
  obtain ⟨y, hy, rfl⟩ := h x hx
  exact hall y hy

theorem generateNetwork_exchange_straight :
    ∃ n, generateNetwork (straight 1 10.0) .default = .ok n ∧
      (∀ x ∈ n.toDocument.measures, Json.IsExact x) ∧ n.toDocument.isFinite = true ∧
      ∃ m, Network.ofText n.toText = .ok m ∧ m.toDocument = n.toDocument := by
  have hturtle : (straight 1 10.0).validateTurtle = .ok () := rfl
  have hgenerate := generateNetwork_straight Nat.one_pos hturtle
  have hexact : ∀ x ∈ (AssemblyOptions.default.network (straightRoad 1 10.0)).toDocument.measures,
      Json.IsExact x := isExact_of_straight (by decide +kernel)
  have hfinite :
      (AssemblyOptions.default.network (straightRoad 1 10.0)).toDocument.isFinite = true := by
    decide +kernel
  exact ⟨_, hgenerate, hexact, hfinite, (generateNetwork_exchange hgenerate hexact).1 hfinite⟩

/-- The checks of a grammar and of an assembly do not see that a road leaves the finite numbers. -/
theorem generateNetwork_refused_text :
    ∃ n, (straight 2 1e308).validate = .ok () ∧ (straight 2 1e308).IsBounded ∧
      (AssemblyOptions.default : AssemblyOptions Float).IsValid ∧
      generateNetwork (straight 2 1e308) .default = .ok n ∧
      (∀ x ∈ n.toDocument.measures, Json.IsExact x) ∧
      Network.ofText n.toText = .error .notADocument := by
  have hturtle : (straight 2 1e308).validateTurtle = .ok () := by
    have hstep : ¬ (!Scalar.isFinite (straight 2 1e308).stepLength ∨
        (straight 2 1e308).stepLength ≤ 0.0) := by decide +kernel
    have hturn : ¬ !Scalar.isFinite (straight 2 1e308).turnAngle := by decide +kernel
    rw [GrammarConfig.validateTurtle, if_neg hstep, if_neg hturn]
  have hvalidate : (straight 2 1e308).validate = .ok () := by
    have hgrammar : (straight 2 1e308).validateGrammar = .ok () := rfl
    rw [GrammarConfig.validate, hgrammar, hturtle]
    rfl
  have hbounded : (straight 2 1e308).IsBounded := by decide +kernel
  have hgenerate := generateNetwork_straight Nat.two_pos hturtle
  have hexact : ∀ x ∈ (AssemblyOptions.default.network (straightRoad 2 1e308)).toDocument.measures,
      Json.IsExact x := isExact_of_straight (by decide +kernel)
  have hinfinite :
      (AssemblyOptions.default.network (straightRoad 2 1e308)).toDocument.isFinite = false := by
    decide +kernel
  have hread := (Network.IsObtained.generated hgenerate).isSound.ofText_toText hexact
  rw [hinfinite, if_neg Bool.false_ne_true] at hread
  exact ⟨_, hvalidate, hbounded, AssemblyOptions.isValid_default, hgenerate, hexact, hread⟩

end Roadworks
