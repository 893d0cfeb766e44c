import Roadworks.Generator.Codec
import Roadworks.Proofs.Document.Exchange
import Roadworks.Proofs.Json.Amending
import Roadworks.Section.Codec
/-! # What a document may leave out

Options, styles and grammars may be written without the fields that have their defaults, at every
depth; the records of a network must be complete. The default that a decoder puts in is the one that
the type has, so a document with finite measures comes back from all that it may be written as. -/

namespace Roadworks

open Json (Shape Field Change IsLossless)

/-! ## Styles -/

namespace LineStyle

theorem isLossless (s : LineStyle) :
    IsLossless (fun s => Json.text s.name) (Json.asTag byName) (.none : Change Float) s :=
  .tag s.lookup_name

end LineStyle

namespace MarkingPattern

/-- The measures that a pattern writes. -/
def measures (m : MarkingPattern Float) : List Float := [m.dashLength, m.gapLength, m.lineWidth]

/-- Every field of a pattern may be left out. -/
def shape : Shape Float :=
  let base : MarkingPattern Float := .default
  [("centre", .optional (.text base.centre.name) .none),
    ("lane", .optional (.text base.lane.name) .none),
    ("edge", .optional (.text base.edge.name) .none),
    ("dash_length", .optional (.measure base.dashLength) .none),
    ("gap_length", .optional (.measure base.gapLength) .none),
    ("line_width", .optional (.measure base.lineWidth) .none)]

theorem isLossless {m : MarkingPattern Float} (h : ∀ x ∈ m.measures, Scalar.isFinite x = true) :
    IsLossless toJson ofJson? (.record shape) m := by
  simp only [measures, List.forall_mem_cons] at h
  obtain ⟨hdash, hgap, hwidth, -⟩ := h
  refine .record rfl (by simp [shape]) (.refl _) fun ws hws => ?_
  have hfields : (Json.record ws).asRecord
      ["centre", "lane", "edge", "dash_length", "gap_length", "line_width"] = some ws :=
    hws.asRecord_eq
  have hcentre : Json.optional ws "centre" (Json.asTag LineStyle.byName) default.centre =
      some m.centre := hws.optional_eq rfl rfl m.centre.isLossless rfl
  have hlane : Json.optional ws "lane" (Json.asTag LineStyle.byName) default.lane = some m.lane :=
    hws.optional_eq rfl rfl m.lane.isLossless rfl
  have hedge : Json.optional ws "edge" (Json.asTag LineStyle.byName) default.edge = some m.edge :=
    hws.optional_eq rfl rfl m.edge.isLossless rfl
  have hdash : Json.optional ws "dash_length" Json.asMeasure default.dashLength =
      some m.dashLength := hws.optional_eq rfl rfl (.measure hdash) rfl
  have hgap : Json.optional ws "gap_length" Json.asMeasure default.gapLength = some m.gapLength :=
    hws.optional_eq rfl rfl (.measure hgap) rfl
  have hwidth : Json.optional ws "line_width" Json.asMeasure default.lineWidth =
      some m.lineWidth := hws.optional_eq rfl rfl (.measure hwidth) rfl
  simp [ofJson?, hfields, hcentre, hlane, hedge, hdash, hgap, hwidth]

end MarkingPattern

namespace CurbProfile

/-- The measures that a curb writes. -/
def measures (c : CurbProfile Float) : List Float := [c.height, c.width, c.sidewalkWidth]

/-- Every field of a curb may be left out. -/
def shape : Shape Float :=
  let base : CurbProfile Float := .default
  [("height", .optional (.measure base.height) .none),
    ("width", .optional (.measure base.width) .none),
    ("sidewalk_width", .optional (.measure base.sidewalkWidth) .none)]

theorem isLossless {c : CurbProfile Float} (h : ∀ x ∈ c.measures, Scalar.isFinite x = true) :
    IsLossless toJson ofJson? (.record shape) c := by
  simp only [measures, List.forall_mem_cons] at h
  obtain ⟨hheight, hwidth, hsidewalk, -⟩ := h
  refine .record rfl (by simp [shape]) (.refl _) fun ws hws => ?_
  have hfields : (Json.record ws).asRecord ["height", "width", "sidewalk_width"] = some ws :=
    hws.asRecord_eq
  have hheight : Json.optional ws "height" Json.asMeasure default.height = some c.height :=
    hws.optional_eq rfl rfl (.measure hheight) rfl
  have hwidth : Json.optional ws "width" Json.asMeasure default.width = some c.width :=
    hws.optional_eq rfl rfl (.measure hwidth) rfl
  have hsidewalk : Json.optional ws "sidewalk_width" Json.asMeasure default.sidewalkWidth =
      some c.sidewalkWidth := hws.optional_eq rfl rfl (.measure hsidewalk) rfl
  simp [ofJson?, hfields, hheight, hwidth, hsidewalk]

end CurbProfile

namespace StyleProfile

/-- The measures that a style writes. -/
def measures (p : StyleProfile Float) : List Float :=
  p.laneWidth :: (p.shoulderWidth.toList ++ p.medianWidth.toList ++ p.markings.measures ++
    p.curb.toList.flatMap CurbProfile.measures)

/-- Every field of a style may be left out. -/
def shape : Shape Float :=
  let base : StyleProfile Float := .default
  [("lane_count", .optional (.count base.laneCount.toNat) .none),
    ("lane_width", .optional (.measure base.laneWidth) .none),
    ("shoulder_width", .optional (.nullable .measure base.shoulderWidth) .none),
    ("median_width", .optional (.nullable .measure base.medianWidth) .none),
    ("markings", .optional base.markings.toJson (.record MarkingPattern.shape)),
    ("curb", .optional (.nullable CurbProfile.toJson base.curb) (.record CurbProfile.shape))]

theorem isLossless {p : StyleProfile Float} (h : ∀ x ∈ p.measures, Scalar.isFinite x = true) :
    IsLossless toJson ofJson? (.record shape) p := by
  simp only [measures, List.forall_mem_cons, List.forall_mem_append] at h
  obtain ⟨hwidth, ⟨⟨hshoulder, hmedian⟩, hmarkings⟩, hcurb⟩ := h
  refine .record rfl (by simp [shape]) (.refl _) fun ws hws => ?_
  have hfields : (Json.record ws).asRecord
      ["lane_count", "lane_width", "shoulder_width", "median_width", "markings", "curb"] =
        some ws := hws.asRecord_eq
  have hlanes : Json.optional ws "lane_count" (fun v => (v.asCount 32).map Nat.toUInt32)
      default.laneCount = some p.laneCount :=
    hws.optional_eq rfl rfl (.count p.laneCount.toNat_lt UInt32.ofNat_toNat) rfl
  have hwidth : Json.optional ws "lane_width" Json.asMeasure default.laneWidth = some p.laneWidth :=
    hws.optional_eq rfl rfl (.measure hwidth) rfl
  have hshoulder : Json.optional ws "shoulder_width" (Json.asNullable Json.asMeasure)
      default.shoulderWidth = some p.shoulderWidth :=
    hws.optional_eq rfl rfl (.nullable (fun x hx => .measure (hshoulder x (by simpa using hx))) rfl
      fun _ => id) rfl
  have hmedian : Json.optional ws "median_width" (Json.asNullable Json.asMeasure)
      default.medianWidth = some p.medianWidth :=
    hws.optional_eq rfl rfl (.nullable (fun x hx => .measure (hmedian x (by simpa using hx))) rfl
      fun _ => id) rfl
  have hmarkings : Json.optional ws "markings" MarkingPattern.ofJson? default.markings =
      some p.markings :=
    hws.optional_eq rfl rfl (MarkingPattern.isLossless hmarkings) rfl
  have hcurb : Json.optional ws "curb" (Json.asNullable CurbProfile.ofJson?) default.curb =
      some p.curb :=
    hws.optional_eq rfl rfl (.nullable (fun c hc => CurbProfile.isLossless fun x hx =>
      hcurb x (List.mem_flatMap.mpr ⟨c, by simpa using hc, hx⟩)) rfl (Json.not_record_null _)) rfl
  simp [ofJson?, hfields, hlanes, hwidth, hshoulder, hmedian, hmarkings, hcurb]

end StyleProfile

namespace StyleCatalog

/-- The measures that a catalogue writes. -/
def measures (c : StyleCatalog Float) : List Float := c.entries.flatMap fun e => e.2.measures

/-- The styles of a catalogue may be amended. -/
def change : Change Float := .map (.record StyleProfile.shape)

theorem isLossless {c : StyleCatalog Float} (h : ∀ x ∈ c.measures, Scalar.isFinite x = true) :
    IsLossless toJson ofJson? change c := by
  have hkey (k : String) : some (id k) = some k := rfl
  exact IsLossless.dictionary hkey fun e he =>
    StyleProfile.isLossless fun x hx => h x (List.mem_flatMap.mpr ⟨e, he, hx⟩)

end StyleCatalog

/-! ## Grammars -/

namespace Json

theorem soleSymbol_toString (c : Char) : soleSymbol c.toString = some c := by
  simp [soleSymbol]

theorem isLossless_word (w : Word) : IsLossless word asWord (.none : Change Float) w :=
  .of_round_trip (by simp [asWord, word, text, asText])

theorem isLossless_int32 (n : Int32) : IsLossless (fun n : Int32 => integer n.toInt)
    (fun v => (v.asInteger Int32.minValue.toInt Int32.maxValue.toInt).map Int32.ofInt)
    (.none : Change Float) n := by
  refine .of_round_trip ?_
  rw [asInteger, if_pos ⟨Int32.le_toInt n, Int32.toInt_le n⟩, Option.map_some, Int32.ofInt_toInt]

end Json

namespace Production

/-- Only the weight of a production may be left out. -/
def shape : Shape Float :=
  [("weight", .optional (.measure 1.0) .none), ("replacement", .required .none)]

theorem isLossless {p : Production Float} (h : Scalar.isFinite p.weight = true) :
    IsLossless toJson ofJson? (.record shape) p := by
  refine .record rfl (by simp [shape]) (.refl _) fun ws hws => ?_
  have hfields : (Json.record ws).asRecord ["weight", "replacement"] = some ws := hws.asRecord_eq
  have hweight : Json.optional ws "weight" Json.asMeasure 1.0 = some p.weight :=
    hws.optional_eq rfl rfl (.measure h) rfl
  have hbody : Json.required ws "replacement" Json.asWord = some p.body :=
    hws.required_eq rfl rfl (Json.isLossless_word p.body)
  simp [ofJson?, hfields, hweight, hbody]

end Production

namespace GrammarConfig

/-- The measures that a configuration writes. -/
def measures (c : GrammarConfig Float) : List Float :=
  c.turnAngle :: c.stepLength :: c.rules.entries.flatMap fun e => e.2.map (·.weight)

/-- Every field of a configuration may be left out. -/
def shape : Shape Float :=
  let base : GrammarConfig Float := .default
  [("axiom", .optional (.word base.start) .none),
    ("rules", .optional (symbolMap (fun ps => .array (ps.map Production.toJson)) base.rules)
      (.map (.list (.record Production.shape)))),
    ("iterations", .optional (.integer base.iterations.toInt) .none),
    ("turn_angle", .optional (.measure base.turnAngle) .none),
    ("step_length", .optional (.measure base.stepLength) .none),
    ("seed", .optional (.nullable (fun s => .count s.toNat) base.seed) .none),
    ("default_style", .optional (.text base.defaultStyle) .none),
    ("style_symbols", .optional (symbolMap Json.text base.styleSymbols) (.map .none)),
    ("max_stack_depth", .optional (.count base.maxStackDepth.toNat) .none)]

theorem isLossless {c : GrammarConfig Float} (h : ∀ x ∈ c.measures, Scalar.isFinite x = true) :
    IsLossless toJson ofJson? (.record shape) c := by
  simp only [measures, List.forall_mem_cons] at h
  obtain ⟨hturn, hstep, hweights⟩ := h
  refine .record rfl (by simp [shape]) (.refl _) fun ws hws => ?_
  have hfields : (Json.record ws).asRecord fieldNames = some ws := hws.asRecord_eq
  have hstart : Json.optional ws "axiom" Json.asWord default.start = some c.start :=
    hws.optional_eq rfl rfl (Json.isLossless_word c.start) rfl
  have hrules : Json.optional ws "rules"
      (Json.asDictionary Json.soleSymbol (Json.asList Production.ofJson?)) default.rules =
        some c.rules :=
    hws.optional_eq rfl rfl (.dictionary Json.soleSymbol_toString fun e he =>
      .array fun p hp => Production.isLossless
        (hweights _ (List.mem_flatMap.mpr ⟨e, he, List.mem_map_of_mem hp⟩))) rfl
  have hiterations : Json.optional ws "iterations"
      (fun v => (v.asInteger Int32.minValue.toInt Int32.maxValue.toInt).map Int32.ofInt)
      default.iterations = some c.iterations :=
    hws.optional_eq rfl rfl (Json.isLossless_int32 c.iterations) rfl
  have hturn : Json.optional ws "turn_angle" Json.asMeasure default.turnAngle = some c.turnAngle :=
    hws.optional_eq rfl rfl (.measure hturn) rfl
  have hstep : Json.optional ws "step_length" Json.asMeasure default.stepLength =
      some c.stepLength := hws.optional_eq rfl rfl (.measure hstep) rfl
  have hseed : Json.optional ws "seed" (Json.asNullable fun v => (v.asCount 64).map Nat.toUInt64)
      default.seed = some c.seed :=
    hws.optional_eq rfl rfl (.nullable (fun s _ => .count s.toNat_lt UInt64.ofNat_toNat) rfl
      fun _ => id) rfl
  have hstyle : Json.optional ws "default_style" Json.asText default.defaultStyle =
      some c.defaultStyle := hws.optional_eq rfl rfl (.text c.defaultStyle) rfl
  have hsymbols : Json.optional ws "style_symbols" (Json.asDictionary Json.soleSymbol Json.asText)
      default.styleSymbols = some c.styleSymbols :=
    hws.optional_eq rfl rfl (.dictionary Json.soleSymbol_toString fun e _ => .text e.2) rfl
  have hdepth : Json.optional ws "max_stack_depth" (fun v => (v.asCount 64).map Nat.toUInt64)
      default.maxStackDepth = some c.maxStackDepth :=
    hws.optional_eq rfl rfl (.count c.maxStackDepth.toNat_lt UInt64.ofNat_toNat) rfl
  simp only [ofJson?, hfields, hstart, hrules, hiterations, hturn, hstep, hseed, hstyle, hsymbols,
    hdepth, Option.bind_eq_bind, Option.bind_some]
  rfl

end GrammarConfig

/-! ## Options -/

namespace JunctionRules

/-- Every field of the rules may be left out. -/
def shape : Shape Float :=
  let base : JunctionRules Float := .default
  [("intersection_radius", .optional (.measure base.intersectionRadius) .none),
    ("roundabout_radius", .optional (.nullable .measure base.roundaboutRadius) .none),
    ("min_roundabout_degree", .optional (.count base.minRoundaboutDegree.toNat) .none),
    ("pass_max_bend", .optional (.measure base.passMaxBend) .none),
    ("circular_tolerance", .optional (.measure base.circularTolerance) .none)]

theorem isLossless {r : JunctionRules Float} (h : ∀ x ∈ r.measures, Scalar.isFinite x = true) :
    IsLossless toJson ofJson? (.record shape) r := by
  simp only [measures, radii, List.forall_mem_cons, List.forall_mem_append] at h
  obtain ⟨⟨hradius, hround⟩, hbend, htolerance, -⟩ := h
  refine .record rfl (by simp [shape]) (.refl _) fun ws hws => ?_
  have hfields : (Json.record ws).asRecord ["intersection_radius", "roundabout_radius",
      "min_roundabout_degree", "pass_max_bend", "circular_tolerance"] = some ws := hws.asRecord_eq
  have hradius : Json.optional ws "intersection_radius" Json.asMeasure default.intersectionRadius =
      some r.intersectionRadius := hws.optional_eq rfl rfl (.measure hradius) rfl
  have hround : Json.optional ws "roundabout_radius" (Json.asNullable Json.asMeasure)
      default.roundaboutRadius = some r.roundaboutRadius :=
    hws.optional_eq rfl rfl (.nullable (fun x hx => .measure (hround x (by simpa using hx))) rfl
      fun _ => id) rfl
  have hdegree : Json.optional ws "min_roundabout_degree"
      (fun v => (v.asCount 64).map Nat.toUInt64) default.minRoundaboutDegree =
        some r.minRoundaboutDegree :=
    hws.optional_eq rfl rfl (.count r.minRoundaboutDegree.toNat_lt UInt64.ofNat_toNat) rfl
  have hbend : Json.optional ws "pass_max_bend" Json.asMeasure default.passMaxBend =
      some r.passMaxBend := hws.optional_eq rfl rfl (.measure hbend) rfl
  have htolerance : Json.optional ws "circular_tolerance" Json.asMeasure
      default.circularTolerance = some r.circularTolerance :=
    hws.optional_eq rfl rfl (.measure htolerance) rfl
  simp [ofJson?, hfields, hradius, hround, hdegree, hbend, htolerance]

end JunctionRules

namespace AssemblyOptions

/-- The measures that options write. -/
def measures (o : AssemblyOptions Float) : List Float :=
  o.mergeTolerance :: o.elevation :: o.junctions.measures

/-- Every field of the options may be left out. -/
def shape : Shape Float :=
  let base : AssemblyOptions Float := .default
  [("name", .optional (.text base.name) .none),
    ("merge_tolerance", .optional (.measure base.mergeTolerance) .none),
    ("elevation", .optional (.measure base.elevation) .none),
    ("junctions", .optional base.junctions.toJson (.record JunctionRules.shape))]

theorem isLossless {o : AssemblyOptions Float} (h : ∀ x ∈ o.measures, Scalar.isFinite x = true) :
    IsLossless toJson ofJson? (.record shape) o := by
  simp only [measures, List.forall_mem_cons] at h
  obtain ⟨htolerance, helevation, hjunctions⟩ := h
  refine .record rfl (by simp [shape]) (.refl _) fun ws hws => ?_
  have hfields : (Json.record ws).asRecord ["name", "merge_tolerance", "elevation", "junctions"] =
      some ws := hws.asRecord_eq
  have hname : Json.optional ws "name" Json.asText (default (α := Float)).name = some o.name :=
    hws.optional_eq rfl rfl (.text o.name) rfl
  have htolerance : Json.optional ws "merge_tolerance" Json.asMeasure default.mergeTolerance =
      some o.mergeTolerance := hws.optional_eq rfl rfl (.measure htolerance) rfl
  have helevation : Json.optional ws "elevation" Json.asMeasure default.elevation =
      some o.elevation := hws.optional_eq rfl rfl (.measure helevation) rfl
  have hjunctions : Json.optional ws "junctions" JunctionRules.ofJson? default.junctions =
      some o.junctions := hws.optional_eq rfl rfl (JunctionRules.isLossless hjunctions) rfl
  simp [ofJson?, hfields, hname, htolerance, helevation, hjunctions]

end AssemblyOptions

namespace BuildOptions

/-- The measures that options write. -/
def measures (o : BuildOptions Float) : List Float := [o.miterLimit, o.markingLift, o.islandHeight]

/-- Every field of the options may be left out. -/
def shape : Shape Float :=
  let base : BuildOptions Float := .default
  [("miter_limit", .optional (.measure base.miterLimit) .none),
    ("arc_segments", .optional (.count base.arcSegments.toNat) .none),
    ("marking_lift", .optional (.measure base.markingLift) .none),
    ("island_height", .optional (.measure base.islandHeight) .none)]

theorem isLossless {o : BuildOptions Float} (h : ∀ x ∈ o.measures, Scalar.isFinite x = true) :
    IsLossless toJson ofJson? (.record shape) o := by
  simp only [measures, List.forall_mem_cons] at h
  obtain ⟨hmiter, hlift, hheight, -⟩ := h
  refine .record rfl (by simp [shape]) (.refl _) fun ws hws => ?_
  have hfields : (Json.record ws).asRecord
      ["miter_limit", "arc_segments", "marking_lift", "island_height"] = some ws := hws.asRecord_eq
  have hmiter : Json.optional ws "miter_limit" Json.asMeasure default.miterLimit =
      some o.miterLimit := hws.optional_eq rfl rfl (.measure hmiter) rfl
  have harcs : Json.optional ws "arc_segments" (fun v => (v.asCount 64).map Nat.toUInt64)
      default.arcSegments = some o.arcSegments :=
    hws.optional_eq rfl rfl (.count o.arcSegments.toNat_lt UInt64.ofNat_toNat) rfl
  have hlift : Json.optional ws "marking_lift" Json.asMeasure default.markingLift =
      some o.markingLift := hws.optional_eq rfl rfl (.measure hlift) rfl
  have hheight : Json.optional ws "island_height" Json.asMeasure default.islandHeight =
      some o.islandHeight := hws.optional_eq rfl rfl (.measure hheight) rfl
  simp [ofJson?, hfields, hmiter, harcs, hlift, hheight]

end BuildOptions

namespace GeneratorConfig

/-- The measures that a configuration writes. -/
def measures (c : GeneratorConfig Float) : List Float :=
  c.grammar.measures ++ c.assembly.measures ++ c.geometry.measures

/-- Every part of a configuration may be left out. -/
def shape : Shape Float :=
  let base : GeneratorConfig Float := .default
  [("grammar", .optional base.grammar.toJson (.record GrammarConfig.shape)),
    ("assembly", .optional base.assembly.toJson (.record AssemblyOptions.shape)),
    ("geometry", .optional base.geometry.toJson (.record BuildOptions.shape))]

theorem isLossless {c : GeneratorConfig Float} (h : ∀ x ∈ c.measures, Scalar.isFinite x = true) :
    IsLossless toJson ofJson? (.record shape) c := by
  simp only [measures, List.forall_mem_append] at h
  obtain ⟨⟨hgrammar, hassembly⟩, hgeometry⟩ := h
  refine .record rfl (by simp [shape]) (.refl _) fun ws hws => ?_
  have hfields : (Json.record ws).asRecord ["grammar", "assembly", "geometry"] = some ws :=
    hws.asRecord_eq
  have hgrammar : Json.optional ws "grammar" GrammarConfig.ofJson? default.grammar =
      some c.grammar := hws.optional_eq rfl rfl (GrammarConfig.isLossless hgrammar) rfl
  have hassembly : Json.optional ws "assembly" AssemblyOptions.ofJson? default.assembly =
      some c.assembly := hws.optional_eq rfl rfl (AssemblyOptions.isLossless hassembly) rfl
  have hgeometry : Json.optional ws "geometry" BuildOptions.ofJson? default.geometry =
      some c.geometry := hws.optional_eq rfl rfl (BuildOptions.isLossless hgeometry) rfl
  simp [ofJson?, hfields, hgrammar, hassembly, hgeometry]

end GeneratorConfig

/-! ## Networks -/

namespace NodeRecord

/-- Nothing of a node may be left out. -/
def shape : Shape Float := [("id", .required .none), ("position", .required (.list .none))]

theorem isLossless {r : NodeRecord Float} (h : ∀ x ∈ r.measures, Scalar.isFinite x = true) :
    IsLossless toJson ofJson? (.record shape) r := by
  refine .record rfl (by simp [shape]) (.refl _) fun ws hws => ?_
  have hfields : (Json.record ws).asRecord ["id", "position"] = some ws := hws.asRecord_eq
  have hid : Json.required ws "id" Json.asText = some r.id := hws.required_eq rfl rfl (.text r.id)
  have hposition : Json.required ws "position" (Json.asList Json.asMeasure) = some r.measures :=
    hws.required_eq rfl rfl (.array fun x hx => .measure (h x hx))
  simp [ofJson?, hfields, hid, hposition, measures]

end NodeRecord

namespace SegmentRecord

/-- Nothing of a road may be left out. -/
def shape : Shape Float :=
  [("id", .required .none), ("from", .required .none), ("to", .required .none),
    ("style_class", .required .none)]

theorem isLossless (r : SegmentRecord) : IsLossless toJson ofJson? (.record shape) r := by
  refine .record rfl (by simp [shape]) (.refl _) fun ws hws => ?_
  have hfields : (Json.record ws).asRecord ["id", "from", "to", "style_class"] = some ws :=
    hws.asRecord_eq
  have hid : Json.required ws "id" Json.asText = some r.id := hws.required_eq rfl rfl (.text r.id)
  have htail : Json.required ws "from" Json.asText = some r.tail :=
    hws.required_eq rfl rfl (.text r.tail)
  have hhead : Json.required ws "to" Json.asText = some r.head :=
    hws.required_eq rfl rfl (.text r.head)
  have hstyle : Json.required ws "style_class" Json.asText = some r.styleClass :=
    hws.required_eq rfl rfl (.text r.styleClass)
  simp [ofJson?, hfields, hid, htail, hhead, hstyle]

end SegmentRecord

namespace IntersectionRecord

/-- Nothing of an intersection may be left out. -/
def shape : Shape Float :=
  [("node_id", .required .none), ("type", .required .none), ("radius", .required .none)]

theorem isLossless {r : IntersectionRecord Float} (h : Scalar.isFinite r.radius = true) :
    IsLossless toJson ofJson? (.record shape) r := by
  refine .record rfl (by simp [shape]) (.refl _) fun ws hws => ?_
  have hfields : (Json.record ws).asRecord ["node_id", "type", "radius"] = some ws :=
    hws.asRecord_eq
  have hnode : Json.required ws "node_id" Json.asText = some r.node :=
    hws.required_eq rfl rfl (.text r.node)
  have hkind : Json.required ws "type" (Json.asTag IntersectionType.byName) = some r.kind :=
    hws.required_eq rfl rfl (.tag r.kind.lookup_name)
  have hradius : Json.required ws "radius" Json.asMeasure = some r.radius :=
    hws.required_eq rfl rfl (.measure h)
  simp [ofJson?, hfields, hnode, hkind, hradius]

end IntersectionRecord

namespace NetworkDocument

/-- A document may be written without its tolerance, its rules and its intersections, if it has
none. -/
def shape : Shape Float :=
  [("name", .required .none),
    ("merge_tolerance", .optional .null .none),
    ("junctions", .optional .null (.record JunctionRules.shape)),
    ("nodes", .required (.list (.record NodeRecord.shape))),
    ("segments", .required (.list (.record SegmentRecord.shape))),
    ("intersections", .optional (.array []) (.list (.record IntersectionRecord.shape)))]

theorem isLossless {d : NetworkDocument Float} (h : ∀ x ∈ d.measures, Scalar.isFinite x = true) :
    IsLossless toJson ofJson? (.record shape) d := by
  obtain ⟨name, mergeTolerance, junctions, nodes, segments, intersections⟩ := d
  simp only [measures, List.forall_mem_append] at h
  obtain ⟨⟨⟨htolerance, hjunctions⟩, hnodes⟩, hintersections⟩ := h
  refine .record rfl (by simp [shape]) ?_ fun ws hws => ?_
  · cases mergeTolerance <;> cases junctions <;> simp [shape]
  have hfields : (Json.record ws).asRecord ["name", "merge_tolerance", "junctions", "nodes",
      "segments", "intersections"] = some ws := hws.asRecord_eq
  have hname : Json.required ws "name" Json.asText = some name :=
    hws.required_eq rfl rfl (.text name)
  have htolerance : Json.optional ws "merge_tolerance" (Json.asNullable Json.asMeasure) none =
      some mergeTolerance :=
    hws.optional_nullable_eq rfl (by cases mergeTolerance <;> cases junctions <;> rfl)
      (fun x hx => .measure (htolerance x (by simpa using hx))) rfl fun _ => id
  have hjunctions : Json.optional ws "junctions" (Json.asNullable JunctionRules.ofJson?) none =
      some junctions :=
    hws.optional_nullable_eq rfl (by cases mergeTolerance <;> cases junctions <;> rfl)
      (fun r hr => JunctionRules.isLossless fun x hx =>
        hjunctions x (List.mem_flatMap.mpr ⟨r, by simpa using hr, hx⟩)) rfl (Json.not_record_null _)
  have hnodes : Json.required ws "nodes" (Json.asList NodeRecord.ofJson?) = some nodes :=
    hws.required_eq rfl (by cases mergeTolerance <;> cases junctions <;> rfl)
      (.array fun r hr => NodeRecord.isLossless fun x hx =>
        hnodes x (List.mem_flatMap.mpr ⟨r, hr, hx⟩))
  have hsegments : Json.required ws "segments" (Json.asList SegmentRecord.ofJson?) =
      some segments :=
    hws.required_eq rfl (by cases mergeTolerance <;> cases junctions <;> rfl)
      (.array fun r _ => r.isLossless)
  have hintersections : Json.optional ws "intersections" (Json.asList IntersectionRecord.ofJson?) [] =
      some intersections :=
    hws.optional_eq rfl (by cases mergeTolerance <;> cases junctions <;> rfl)
      (.array fun r hr => IntersectionRecord.isLossless (hintersections _ (List.mem_map_of_mem hr)))
      rfl
  simp [ofJson?, hfields, hname, htolerance, hjunctions, hnodes, hsegments, hintersections]

end NetworkDocument

/-! ## All documents -/

/-- Configurations, catalogues and networks with finite measures come back from their documents,
also when fields with their defaults are left out and fields without a meaning are added, at any
depth. -/
theorem documents_lose_nothing :
    (∀ c : GeneratorConfig Float, (∀ x ∈ c.measures, x.isFinite = true) →
      IsLossless GeneratorConfig.toJson GeneratorConfig.ofJson? (.record GeneratorConfig.shape) c) ∧
    (∀ c : StyleCatalog Float, (∀ x ∈ c.measures, x.isFinite = true) →
      IsLossless StyleCatalog.toJson StyleCatalog.ofJson? StyleCatalog.change c) ∧
    ∀ d : NetworkDocument Float, (∀ x ∈ d.measures, x.isFinite = true) →
      IsLossless NetworkDocument.toJson NetworkDocument.ofJson? (.record NetworkDocument.shape) d :=
  ⟨fun _ => GeneratorConfig.isLossless, fun _ => StyleCatalog.isLossless,
    fun _ => NetworkDocument.isLossless⟩

/-- A configuration in which only the rules and the angle are not the usual ones. -/
def hexagonal : GeneratorConfig Float :=
  { GeneratorConfig.default with
    grammar := { GrammarConfig.default.withProduction 'F' ⟨1.0, ['F', '+', 'F']⟩ with
      turnAngle := 60.0 } }

/-- What has to be said of it, and a remark. -/
def abridged : Json Float :=
  .record [("remark", .bool true),
    ("grammar", .record [
      ("rules", .record [("F", .array [.record [("replacement", .text "F+F"), ("note", .null)]])]),
      ("turn_angle", .measure 60.0)])]

theorem change_abridged :
    Change.record GeneratorConfig.shape hexagonal.toJson abridged := by
  have hproduction : Change.record Production.shape
      (Production.toJson ⟨1.0, ['F', '+', 'F']⟩)
      (.record [("replacement", .text "F+F"), ("note", .null)]) :=
    ⟨_, _, rfl, rfl, .leaveOut rfl rfl (.keep rfl .refl (.add rfl .done))⟩
  have hrules : Change.map (.list (.record Production.shape))
      (GrammarConfig.symbolMap (fun ps => .array (ps.map Production.toJson)) hexagonal.grammar.rules)
      (.record [("F", .array [.record [("replacement", .text "F+F"), ("note", .null)]])]) :=
    ⟨_, _, rfl, rfl, .cons ⟨rfl, .single ⟨_, _, rfl, rfl, .cons (.single hproduction) .nil⟩⟩ .nil⟩
  refine ⟨_, _, rfl, rfl, .add rfl (.keep rfl (.single ⟨_, _, rfl, rfl, ?_⟩)
    (.leaveOut rfl rfl (.leaveOut rfl rfl .done)))⟩
  exact .leaveOut rfl rfl (.keep rfl (.single hrules) (.leaveOut rfl rfl (.keep rfl .refl
    (.leaveOut rfl rfl (.leaveOut rfl rfl (.leaveOut rfl rfl (.leaveOut rfl rfl (.leaveOut rfl rfl
      .done))))))))

theorem documents_lose_nothing_abridged :
    (∀ x ∈ hexagonal.measures, x.isFinite = true) ∧
    GeneratorConfig.ofJson? abridged = some hexagonal ∧
    StyleCatalog.ofJson? (.record [("lane", .record [])] : Json Float) =
      some (.ofList [("lane", .default)]) ∧
    NetworkDocument.ofJson? (.record [("name", .text "field"), ("nodes", .array []),
      ("scale", .integer 3), ("segments", .array [])] : Json Float) =
        some ⟨"field", none, none, [], [], []⟩ := by
  have hfinite : ∀ x ∈ hexagonal.measures, x.isFinite = true := List.all_eq_true.mp rfl
  obtain ⟨hconfig, hcatalogue, hnetwork⟩ := documents_lose_nothing
  refine ⟨hfinite, (hconfig hexagonal hfinite).changed _ change_abridged,
    (hcatalogue (.ofList [("lane", .default)]) (List.all_eq_true.mp rfl)).changed _ ?_,
    (hnetwork ⟨"field", none, none, [], [], []⟩ (by simp [NetworkDocument.measures])).changed _ ?_⟩
  · exact ⟨_, _, rfl, rfl, .cons ⟨rfl, .single ⟨_, _, rfl, rfl, .leaveOut rfl rfl (.leaveOut rfl rfl
      (.leaveOut rfl rfl (.leaveOut rfl rfl (.leaveOut rfl rfl (.leaveOut rfl rfl .done)))))⟩⟩ .nil⟩
  · exact ⟨_, _, rfl, rfl, .keep rfl .refl (.keep rfl .refl (.add rfl (.keep rfl .refl
      (.leaveOut rfl rfl .done))))⟩

end Roadworks
