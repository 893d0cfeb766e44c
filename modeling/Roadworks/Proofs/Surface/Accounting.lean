import Roadworks.Proofs.Network.Obtained
import Roadworks.Proofs.Surface.Geometry
/-! # A build accounts for every road and node

A builder keeps nothing from one network to the next. Of a sound network every road gets its surface
or is reported to be too short, every crossing gets its patch, and every fallback is reported once. -/

namespace Roadworks

variable {α : Type}

/-- Warnings about styles stand before those about nodes, and these before those about roads that
are too short. Those of one kind stand in the order of the network. -/
def BuildWarning.Precedes (v w : BuildWarning α) : Prop :=
  v.stage < w.stage ∨ v.stage = w.stage ∧ v.subject < w.subject

theorem BuildWarning.pairwise_precedes {number? : Nat → Option (BuildWarning α)}
    {ws : List (BuildWarning α)} {stage : Nat}
    (h : IsListing BuildWarning.subject number? ws) (hstage : ∀ w ∈ ws, w.stage = stage) :
    ws.Pairwise BuildWarning.Precedes := by
  refine h.pairwise.imp_of_mem ?_
  intro v w hv hw hlt
  exact .inr ⟨(hstage v hv).trans (hstage w hw).symm, hlt⟩

variable [Scalar α]

/-- Half the width of the widest of some roads, or zero. -/
def widestHalf (resolver : StyleResolver α) (roads : List (Edge α)) : α :=
  roads.foldl (fun w e => Scalar.max w (Resolved.ofEdge resolver e).crossSection.halfWidth) 0.0

/-- The node is a junction, or several roads meet there in no known shape. -/
def Network.IsCrossing (n : Network α) (i : Nat) : Prop :=
  n.intersectionType i ∈ [some .threeWay, some .fourWay, some .roundabout] ∨
    n.intersectionType i = none ∧ ∃ v, n.nodes[i]? = some v ∧ 2 ≤ v.degree

/-- A geometry accounts for the roads and nodes of the network that it was built for. -/
structure Geometry.AccountsFor (g : Geometry α) (n : Network α) (resolver : StyleResolver α) :
    Prop where
  pairwise_roads : g.roads.Pairwise fun s t => s.segment < t.segment
  segment_lt : ∀ s ∈ g.roads, s.segment < n.edges.length
  /-- A road has one surface and no report, or one report and no surface. -/
  treatment_cases : ∀ (i : Nat) (e : Edge α), n.edges[i]? = some e →
    (∃ s, g.treatment i = ([s], []) ∧ s.segment = i ∧ s.styleClass = e.styleClass) ∨
      ∃ length, g.treatment i = ([], [.segmentTooShort i length])
  pairwise_junctions : g.junctions.Pairwise fun j k => j.node < k.node
  mem_junctions_iff : ∀ i, (∃ j ∈ g.junctions, j.node = i) ↔ n.IsCrossing i
  kind_eq : ∀ j ∈ g.junctions, j.kind = n.intersectionType j.node
  pairwise_warnings : g.warnings.Pairwise BuildWarning.Precedes
  missingStyle_iff : ∀ (i : Nat) (c : String), .missingStyle i c ∈ g.warnings ↔
    ∃ e, n.edges[i]? = some e ∧ e.styleClass = c ∧ resolver c = none
  invalidStyle_iff : ∀ (i : Nat) (c : String) (fault : ProfileFault),
    .invalidStyle i c fault ∈ g.warnings ↔
      ∃ e p, n.edges[i]? = some e ∧ e.styleClass = c ∧ resolver c = some p ∧ p.fault? = some fault
  unclassifiedJunction_iff : ∀ i degree, .unclassifiedJunction i degree ∈ g.warnings ↔
    ∃ v, n.nodes[i]? = some v ∧ n.intersectionType i = none ∧ v.degree = degree ∧ 2 ≤ degree
  /-- An island is missing where half the width of the widest road leaves no room for it. -/
  degenerateIsland_iff : ∀ i, .degenerateIsland i ∈ g.warnings ↔
    ∃ (v : Node α) (roads : List (Edge α)) (radius : α), n.nodes[i]? = some v ∧
      (v.incident.map fun k => n.edges[k]?) = roads.map some ∧
      n.intersectionType i = some .roundabout ∧ n.rules.roundaboutRadius = some radius ∧
      radius - widestHalf resolver roads ≤ 0.0
  /-- A road is too short where the surfaces over its ends leave nothing of it. -/
  segmentTooShort_iff : ∀ (i : Nat) (length : α), .segmentTooShort i length ∈ g.warnings ↔
    ∃ e a b, n.edges[i]? = some e ∧ n.endpoints i = some (a, b) ∧ length = a.dist b ∧
      (Polyline.line a b).trimmed (g.radiusAt e.tail) (g.radiusAt e.head) = none

namespace BuildOptions

variable {o : BuildOptions α} {n : Network α} {resolver : StyleResolver α}

/-! ## Junctions -/

theorem isCrossing_iff_isNeeded {i : Nat} {v : Node α} (hv : n.nodes[i]? = some v) :
    n.IsCrossing i ↔ SizedPatch.isNeeded (n.intersectionType i) v.degree = true := by
  unfold Network.IsCrossing SizedPatch.isNeeded
  cases n.intersectionType i with
  | none => simp [hv]
  | some kind => cases kind <;> simp [IntersectionType.isJunction]

theorem exists_junction?_iff {i : Nat} :
    (∃ j, o.junction? n resolver i = some j) ↔ n.IsCrossing i := by
  cases hv : n.nodes[i]? with
  | none => simp [junction?, Network.IsCrossing, Network.intersectionType, hv]
  | some v =>
      rw [isCrossing_iff_isNeeded hv, junction?, hv]
      simp [SizedPatch.ofNode]

/-! ## Warnings -/

theorem pairwise_warnings_surfaces (o : BuildOptions α) (n : Network α)
    (resolver : StyleResolver α) :
    (o.surfaces n resolver).warnings.Pairwise BuildWarning.Precedes := by
  rw [warnings_surfaces, List.pairwise_flatMap]
  constructor
  · intro stage _
    exact BuildWarning.pairwise_precedes (o.isListing_warningsOf n resolver stage)
      fun _ => stage_of_mem_warningsOf
  · refine List.pairwise_lt_range.imp ?_
    intro stage stage' hlt v hv w hw
    refine .inl ?_
    rwa [stage_of_mem_warningsOf hv, stage_of_mem_warningsOf hw]

theorem mem_warnings_iff {w : BuildWarning α} :
    w ∈ (o.surfaces n resolver).warnings ↔
      o.warning? n resolver w.stage w.subject = some w := by
  rw [warnings_surfaces, List.mem_flatMap, ← (o.isListing_warningsOf n resolver w.stage).mem_iff]
  constructor
  · intro h
    obtain ⟨stage, _, hw⟩ := h
    rwa [stage_of_mem_warningsOf hw]
  · intro hw
    exact ⟨w.stage, List.mem_range.mpr w.stage_lt, hw⟩

theorem missingStyle_mem_iff {i : Nat} {c : String} :
    .missingStyle i c ∈ (o.surfaces n resolver).warnings ↔
      ∃ e, n.edges[i]? = some e ∧ e.styleClass = c ∧ resolver c = none := by
  rw [mem_warnings_iff]
  change n.styleWarning? resolver i = _ ↔ _
  rw [Network.styleWarning?, Option.bind_eq_some_iff]
  refine exists_congr fun e => and_congr_right fun _ => ?_
  rw [Resolved.warning?]
  constructor
  · intro h
    split at h
    · next hnone =>
        cases h
        exact ⟨rfl, hnone⟩
    · simp at h
  · intro h
    obtain ⟨hc, hnone⟩ := h
    rw [hc, hnone]

theorem invalidStyle_mem_iff {i : Nat} {c : String} {fault : ProfileFault} :
    .invalidStyle i c fault ∈ (o.surfaces n resolver).warnings ↔
      ∃ e p, n.edges[i]? = some e ∧ e.styleClass = c ∧ resolver c = some p ∧
        p.fault? = some fault := by
  rw [mem_warnings_iff]
  change n.styleWarning? resolver i = _ ↔ _
  rw [Network.styleWarning?, Option.bind_eq_some_iff]
  refine exists_congr fun e => ?_
  rw [exists_and_left, and_congr_right_iff]
  intro _
  rw [Resolved.warning?]
  constructor
  · intro h
    split at h
    · cases h
    · next p hp =>
        obtain ⟨_, hfault, hw⟩ := Option.map_eq_some_iff.mp h
        cases hw
        exact ⟨p, rfl, hp, hfault⟩
  · intro h
    obtain ⟨p, hc, hp, hfault⟩ := h
    rw [hc, hp]
    simp [hfault]

/-- Taking the parts that are there leaves out nothing where all are. -/
theorem map_eq_map_some_filterMap {β γ : Type} {g : β → Option γ} {l : List β}
    (h : ∀ b ∈ l, ∃ c, g b = some c) : l.map g = (l.filterMap g).map some := by
  induction l with
  | nil => rfl
  | cons b l ih =>
      obtain ⟨hb, hl⟩ := List.forall_mem_cons.mp h
      obtain ⟨c, hc⟩ := hb
      simp [hc, ih hl]

theorem widest_styles {incident : List Nat} {roads : List (Edge α)}
    (h : (incident.map fun k => n.edges[k]?) = roads.map some) :
    SizedPatch.widest (n.styles resolver) incident = widestHalf resolver roads := by
  have hsome : incident.filterMap (fun k => n.edges[k]?) = roads := by
    have := congrArg (List.filterMap id) h
    simpa [List.filterMap_map] using this
  have hstyles : incident.filterMap (fun k => (n.styles resolver)[k]?) =
      roads.map (Resolved.ofEdge resolver) := by
    simp only [Network.getElem?_styles, ← hsome, List.map_filterMap]
  rw [SizedPatch.widest, hstyles, List.foldl_map, widestHalf]

/-- The roads that a node of a sound network lists are there. -/
theorem exists_incident_eq (hvalid : n.validate = .ok ()) {i : Nat} {v : Node α}
    (hv : n.nodes[i]? = some v) :
    ∃ roads : List (Edge α), (v.incident.map fun k => n.edges[k]?) = roads.map some := by
  refine ⟨_, map_eq_map_some_filterMap fun k hk => ?_⟩
  obtain ⟨e, he, _⟩ := (Network.mem_incident_iff hvalid hv).mp hk
  exact ⟨e, he⟩

theorem unclassifiedJunction_mem_iff {i degree : Nat} :
    .unclassifiedJunction i degree ∈ (o.surfaces n resolver).warnings ↔
      ∃ v, n.nodes[i]? = some v ∧ n.intersectionType i = none ∧ v.degree = degree ∧
        2 ≤ degree := by
  rw [mem_warnings_iff]
  change n.nodeWarning? resolver i = _ ↔ _
  rw [Network.nodeWarning?, Option.bind_eq_some_iff]
  refine exists_congr fun v => and_congr_right fun _ => ?_
  rw [SizedPatch.warning?]
  cases n.intersectionType i with
  | none => simp; omega
  | some kind => cases kind <;> simp [Option.bind_eq_some_iff]

theorem degenerateIsland_mem_iff (hvalid : n.validate = .ok ()) {i : Nat} :
    .degenerateIsland i ∈ (o.surfaces n resolver).warnings ↔
      ∃ (v : Node α) (roads : List (Edge α)) (radius : α), n.nodes[i]? = some v ∧
        (v.incident.map fun k => n.edges[k]?) = roads.map some ∧
        n.intersectionType i = some .roundabout ∧ n.rules.roundaboutRadius = some radius ∧
        radius - widestHalf resolver roads ≤ 0.0 := by
  have hnode : ∀ v, SizedPatch.warning? n (n.styles resolver) v i = some (.degenerateIsland i) ↔
      n.intersectionType i = some .roundabout ∧ ∃ radius, n.rules.roundaboutRadius = some radius ∧
        radius - SizedPatch.widest (n.styles resolver) v.incident ≤ 0.0 := by
    intro v
    rw [SizedPatch.warning?]
    cases n.intersectionType i with
    | none => simp
    | some kind => cases kind <;> simp [Option.bind_eq_some_iff]
  rw [mem_warnings_iff]
  change n.nodeWarning? resolver i = _ ↔ _
  rw [Network.nodeWarning?, Option.bind_eq_some_iff]
  constructor
  · intro h
    obtain ⟨v, hv, hw⟩ := h
    obtain ⟨hkind, radius, hradius, hroom⟩ := (hnode v).mp hw
    obtain ⟨roads, hroads⟩ := exists_incident_eq hvalid hv
    exact ⟨v, roads, radius, hv, hroads, hkind, hradius, widest_styles hroads ▸ hroom⟩
  · intro h
    obtain ⟨v, roads, radius, hv, hroads, hkind, hradius, hroom⟩ := h
    exact ⟨v, hv, (hnode v).mpr ⟨hkind, radius, hradius, widest_styles hroads ▸ hroom⟩⟩

/-! ## Roads -/

theorem segmentTooShort_mem_iff (hvalid : n.validate = .ok ()) {i : Nat} {length : α} :
    .segmentTooShort i length ∈ (o.surfaces n resolver).warnings ↔
      ∃ e a b, n.edges[i]? = some e ∧ n.endpoints i = some (a, b) ∧ length = a.dist b ∧
        (Polyline.line a b).trimmed ((o.surfaces n resolver).radiusAt e.tail)
          ((o.surfaces n resolver).radiusAt e.head) = none := by
  rw [mem_warnings_iff]
  change (o.outcome? n resolver i).bind BuildWarning.ofOutcome? = _ ↔ _
  simp only [Option.bind_eq_some_iff, BuildWarning.ofOutcome?_eq_some_iff, exists_eq_right,
    radiusAt_surfaces]
  constructor
  · intro hshort
    obtain ⟨e, he, _⟩ := Option.bind_eq_some_iff.mp hshort
    obtain ⟨a, b, hends, ⟨hrest, hreport⟩ | ⟨_, s, hs⟩⟩ := outcome?_cases o resolver hvalid he
    · cases hshort.symm.trans hreport
      exact ⟨e, a, b, he, hends, rfl, hrest⟩
    · cases hshort.symm.trans hs
  · intro h
    obtain ⟨e, a, b, he, hends, hlength, hrest⟩ := h
    obtain ⟨a', b', hends', ⟨_, hreport⟩ | ⟨hsome, _⟩⟩ := outcome?_cases o resolver hvalid he
    · cases hends.symm.trans hends'
      rw [hreport, hlength]
    · cases hends.symm.trans hends'
      exact absurd hrest hsome

theorem treatment_surfaces_cases (o : BuildOptions α) (resolver : StyleResolver α)
    (hvalid : n.validate = .ok ()) {i : Nat} {e : Edge α} (he : n.edges[i]? = some e) :
    (∃ s, (o.surfaces n resolver).treatment i = ([s], []) ∧ s.segment = i ∧
        s.styleClass = e.styleClass) ∨
      ∃ length, (o.surfaces n resolver).treatment i = ([], [.segmentTooShort i length]) := by
  rw [treatment_surfaces]
  obtain ⟨a, b, _, ⟨_, hreport⟩ | ⟨_, s, hs⟩⟩ := outcome?_cases o resolver hvalid he
  · exact .inr ⟨a.dist b, by rw [hreport]; rfl⟩
  · exact .inl ⟨s, by rw [hs]; rfl, segment_of_outcome? he hs⟩

/-- The surfaces of a sound network account for its roads and nodes. -/
theorem accountsFor_surfaces (o : BuildOptions α) (resolver : StyleResolver α)
    (hvalid : n.validate = .ok ()) : (o.surfaces n resolver).AccountsFor n resolver where
  pairwise_roads := (o.isListing_roads n resolver).pairwise
  segment_lt s hs := by
    obtain ⟨x, hx, _⟩ := Option.bind_eq_some_iff.mp ((o.isListing_roads n resolver).mem_iff.mp hs)
    obtain ⟨e, he, _⟩ := Option.bind_eq_some_iff.mp hx
    exact (List.getElem?_eq_some_iff.mp he).1
  treatment_cases _ _ he := o.treatment_surfaces_cases resolver hvalid he
  pairwise_junctions := (o.isListing_junctions n resolver).pairwise
  mem_junctions_iff i :=
    (o.isListing_junctions n resolver).exists_mem_iff.trans exists_junction?_iff
  kind_eq j hj := (node_of_junction? ((o.isListing_junctions n resolver).mem_iff.mp hj)).2
  pairwise_warnings := o.pairwise_warnings_surfaces n resolver
  missingStyle_iff _ _ := missingStyle_mem_iff
  invalidStyle_iff _ _ _ := invalidStyle_mem_iff
  unclassifiedJunction_iff _ _ := unclassifiedJunction_mem_iff
  degenerateIsland_iff _ := degenerateIsland_mem_iff hvalid
  segmentTooShort_iff _ _ := segmentTooShort_mem_iff hvalid

end BuildOptions

/-! ## Builders -/

namespace Builder

/-- The state that a build leaves, and its result. -/
def answer (b : Builder α) (n : Network α) (resolver : StyleResolver α) :
    BuildState α × Except (GraphError α) (Geometry α) :=
  ((b.build n resolver).1.state, (b.build n resolver).2)

/-- The answers of a builder to calls that are made one after the other. -/
def run (b : Builder α) :
    List (Network α × StyleResolver α) → List (BuildState α × Except (GraphError α) (Geometry α))
  | [] => []
  | (n, resolver) :: calls => b.answer n resolver :: (b.build n resolver).1.run calls

variable {b b' : Builder α} {n : Network α} {resolver : StyleResolver α}

theorem build_of_error {e : GraphError α} (h : n.validate = .error e) :
    b.build n resolver = ({ b with state := .unbuilt }, .error e) := by
  rw [build, BuildOptions.build, h]
  rfl

theorem build_of_ok (h : n.validate = .ok ()) :
    b.build n resolver =
      let g := b.options.surfaces n resolver
      ({ b with state := if g.isComplete then .built else .partiallyBuilt g.warnings }, .ok g) := by
  rw [build, BuildOptions.build, h]
  rfl

/-- A build succeeds for the networks that pass their check, with all that is made of them. -/
theorem build_eq_ok_iff {g : Geometry α} : (b.build n resolver).2 = .ok g ↔
    n.validate = .ok () ∧ b.options.surfaces n resolver = g := by
  cases h : n.validate with
  | error e => simp [build_of_error h]
  | ok _ => simp [build_of_ok h]

@[simp] theorem options_build (b : Builder α) (n : Network α) (resolver : StyleResolver α) :
    (b.build n resolver).1.options = b.options := by
  cases h : n.validate with
  | error e => rw [build_of_error h]
  | ok _ => rw [build_of_ok h]

/-- A builder answers by its options alone, whatever its last build has left. -/
theorem answer_eq_of_options_eq (h : b.options = b'.options) (n : Network α)
    (resolver : StyleResolver α) : b.answer n resolver = b'.answer n resolver := by
  unfold answer
  cases hvalid : n.validate with
  | error e => rw [build_of_error hvalid, build_of_error hvalid]
  | ok _ => rw [build_of_ok hvalid, build_of_ok hvalid, h]

theorem run_eq_map_of_options_eq (h : b.options = b'.options)
    (calls : List (Network α × StyleResolver α)) :
    b.run calls = calls.map fun c => b'.answer c.1 c.2 := by
  induction calls generalizing b with
  | nil => rfl
  | cons c calls ih =>
      -- A call changes the state only, and the state is no part of the next answer.
      rw [run, List.map_cons, answer_eq_of_options_eq h, ih ((options_build ..).trans h)]

/-- However many networks a builder has built before, sound or not, it answers like a new one: it
refuses what is not sound, and accounts for the roads and nodes of what is. -/
theorem run_accounts (b : Builder α) (calls : List (Network α × StyleResolver α)) :
    (b.run calls = calls.map fun c => (new b.options).answer c.1 c.2) ∧
      ∀ (n : Network α) (resolver : StyleResolver α), match n.validate with
        | .error e => (new b.options).answer n resolver = (.unbuilt, .error e)
        | .ok _ => ∃ g, (new b.options).answer n resolver =
              (if g.warnings.isEmpty then .built else .partiallyBuilt g.warnings, .ok g) ∧
            g.AccountsFor n resolver := by
  refine ⟨run_eq_map_of_options_eq rfl calls, fun n resolver => ?_⟩
  cases hvalid : n.validate with
  | error e => simp only [answer, build_of_error hvalid]
  | ok _ =>
      refine ⟨b.options.surfaces n resolver, ?_, b.options.accountsFor_surfaces resolver hvalid⟩
      simp only [answer, build_of_ok hvalid]
      rfl

theorem exists_street_retraced : ∃ n e, AssemblyOptions.assemble .default retraced = .ok n ∧
    n.edges[0]? = some e ∧ e.styleClass = "street" := by
  have hstreet : (AssemblyOptions.network .default retraced).edges[0]?.map (·.styleClass) =
      some "street" := by
    decide +kernel
  obtain ⟨e, he, hclass⟩ := Option.map_eq_some_iff.mp hstreet
  exact ⟨_, e, assemble_retraced, he, hclass⟩

/-- A network whose only road leads from nowhere. -/
def nowhere : Network Float := .ofParts "nowhere" 0.01 .default [] [⟨0, 1, 0.0, "street", 0⟩] []

/-- After a network that it refuses, a builder warns of the styles of a sound one as it did before
it. -/
theorem run_accounts_retraced :
    ∃ (n : Network Float) (g : Geometry Float),
      AssemblyOptions.assemble .default retraced = .ok n ∧
      (new .default).run [(n, fun _ => none), (nowhere, fun _ => none), (n, fun _ => none)] =
        [(.partiallyBuilt g.warnings, .ok g), (.unbuilt, .error (.unknownNode (.place 0) (.place 0))),
          (.partiallyBuilt g.warnings, .ok g)] ∧
      g.AccountsFor n (fun _ => none) := by
  obtain ⟨n, e, hassemble, he, hclass⟩ := exists_street_retraced
  obtain ⟨hrun, haccounts⟩ := run_accounts (new (.default : BuildOptions Float))
    [(n, fun _ => none), (nowhere, fun _ => none), (n, fun _ => none)]
  have hsound := haccounts n fun _ => none
  rw [(isSound_of_assemble hassemble).validate_eq_ok] at hsound
  obtain ⟨g, hanswer, hg⟩ := hsound
  have hwarned := (hg.missingStyle_iff 0 "street").mpr ⟨e, he, hclass, rfl⟩
  have hnonempty : g.warnings.isEmpty = false :=
    List.isEmpty_eq_false_iff_exists_mem.mpr ⟨_, hwarned⟩
  rw [hnonempty] at hanswer
  refine ⟨n, g, hassemble, ?_, hg⟩
  rw [hrun]
  simp only [List.map_cons, List.map_nil, hanswer]
  rfl

end Builder

end Roadworks
