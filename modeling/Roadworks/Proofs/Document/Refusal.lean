import Roadworks.Proofs.Document.Reading
import Roadworks.Proofs.Exact.Nearness
/-! # Which documents are read

A document is read when it is well formed. Otherwise its first fault is reported, in the order in
which faults are looked for: first its tolerance, then its nodes, its roads in their order, its
radii, and last the distances between its nodes. -/

namespace Roadworks

variable {α : Type} [Scalar α]

/-! ## Points that are too close -/

/-- The outermost cells leave room for a neighbour. -/
theorem Grid.cellIndex_bounds (g : Grid α) (v : α) :
    Int64.minValue.toInt < g.cellIndex v ∧ g.cellIndex v < Int64.maxValue.toInt := by
  have hmin : Int64.minValue.toInt = -9223372036854775808 := by decide
  have hmax : Int64.maxValue.toInt = 9223372036854775807 := by decide
  rw [cellIndex, cellLimit]
  omega

/-- The first point that lies near one before it, as it is reported. -/
inductive TooClose (near : Vec α → Vec α → Prop) (points : List (Vec α)) : GraphError α → Prop where
  | intro {before after : List (Vec α)} {q p : Vec α} {j : Nat} :
    points = before ++ p :: after → before.Pairwise (fun q p => ¬ near q p) →
    before[j]? = some q → near q p →
    TooClose near points (.nodesTooClose (.place j) (.place before.length) (q.dist p))

theorem TooClose.not_pairwise {near : Vec α → Vec α → Prop} {points : List (Vec α)}
    {e : GraphError α} (h : TooClose near points e) : ¬ points.Pairwise fun q p => ¬ near q p := by
  obtain ⟨rfl, _, hq, hnear⟩ := h
  intro hapart
  exact (List.pairwise_append.mp hapart).2.2 _ (List.mem_of_getElem? hq) _ List.mem_cons_self hnear

namespace Network

/-- The distances are compared in the order of the later nodes. -/
theorem tooClose_of_checkDistances_eq_error {n : Network α} {e : GraphError α}
    (h : n.checkDistances = .error e) :
    TooClose (IsNear n.mergeTolerance) (n.nodes.map (·.position)) e := by
  rw [checkDistances] at h
  generalize n.nodes.map (·.position) = points at h ⊢
  split at h
  · cases h
  · next i j pairs hpairs =>
      have hmem : (i, j) ∈ nearPairs n.mergeTolerance points := hpairs ▸ List.mem_cons_self
      obtain ⟨hlt, p, q, hp, hq, hnear⟩ := mem_nearPairs_iff.mp hmem
      obtain ⟨hi, hp⟩ := List.getElem?_eq_some_iff.mp hp
      have hlength : (points.take i).length = i := List.length_take_of_le hi.le
      have hsplit : points = points.take i ++ p :: points.drop (i + 1) := by
        rw [← hp, List.getElem_cons_drop, List.take_append_drop]
      have hbefore : (points.take i)[j]? = some q := by rw [List.getElem?_take_of_lt hlt, hq]
      have hreport := TooClose.intro hsplit (pairwise_take_of_nearPairs_eq_cons hpairs) hbefore hnear
      rw [hlength] at hreport
      cases h
      rw [List.getD_eq_getElem?_getD, List.getD_eq_getElem?_getD, hq, List.getElem?_eq_getElem hi, hp]
      exact hreport

/-- Where the roads join nodes, which list them, only the distances are left to check. -/
theorem validate_eq_checkDistances {n : Network α} (hjoins : n.JoinsNodes) (hlists : n.ListsRoads) :
    n.validate = n.checkDistances := by
  have hedges := forM_checkEdge_eq_ok_iff.mpr hjoins
  have hnodes := forM_checkNode_eq_ok_iff.mpr fun i v hv => by
    rw [hlists i v hv, mergeSort_incidentTo n.edges]
  rw [validate, hedges, hnodes]
  rfl

end Network

namespace NetworkDocument

variable {d : NetworkDocument α}

/-! ## What a document has to meet -/

/-- The names of the nodes. -/
def nodeNames (d : NetworkDocument α) : List String := d.nodes.map (·.id)

/-- The tolerance in effect is a positive number. -/
def HasTolerance (d : NetworkDocument α) : Prop :=
  Scalar.isFinite d.tolerance ∧ ¬ d.tolerance ≤ 0.0

/-- The roads have different names, and each of them joins two different nodes of the document. -/
structure JoinsNodes (d : NetworkDocument α) (records : List SegmentRecord) : Prop where
  nodup : (records.map (·.id)).Nodup
  ends : ∀ r ∈ records, r.tail ∈ d.nodeNames ∧ r.head ∈ d.nodeNames ∧ r.tail ≠ r.head

/-- The radius is a number that is not negative. -/
def IsRadius (r : α) : Prop := Scalar.isFinite r ∧ ¬ r < 0.0

/-- A document that describes a network, when `near` tells which nodes are too close. -/
structure IsWellFormed (near : Vec α → Vec α → Prop) (d : NetworkDocument α) : Prop where
  tolerance : d.HasTolerance
  nodes : d.nodeNames.Nodup
  segments : d.JoinsNodes d.segments
  radii : ∀ r ∈ d.rules.radii, IsRadius r
  apart : (d.nodes.map (·.position)).Pairwise fun q p => ¬ near q p

/-! ## What can be wrong with it -/

/-- The first thing that is wrong with the record of a road after others. -/
inductive BreaksRecord (d : NetworkDocument α) (before : List SegmentRecord) (r : SegmentRecord) :
    GraphError α → Prop where
  | duplicateId : r.id ∈ before.map (·.id) → BreaksRecord d before r (.duplicateId r.id)
  | unknownTail : r.id ∉ before.map (·.id) → r.tail ∉ d.nodeNames →
    BreaksRecord d before r (.unknownNode (.name r.id) (.name r.tail))
  | unknownHead : r.id ∉ before.map (·.id) → r.tail ∈ d.nodeNames → r.head ∉ d.nodeNames →
    BreaksRecord d before r (.unknownNode (.name r.id) (.name r.head))
  | selfLoop : r.id ∉ before.map (·.id) → r.tail ∈ d.nodeNames → r.tail = r.head →
    BreaksRecord d before r (.selfLoop (.name r.id))

/-- The first thing that is wrong with a document. -/
inductive Refuses (near : Vec α → Vec α → Prop) (d : NetworkDocument α) : GraphError α → Prop where
  | tolerance : ¬ d.HasTolerance → Refuses near d (.invalidTolerance d.tolerance)
  | nodes {before after : List String} {id : String} :
    d.HasTolerance → d.nodeNames = before ++ id :: after → before.Nodup → id ∈ before →
    Refuses near d (.duplicateId id)
  | segments {before after : List SegmentRecord} {r : SegmentRecord} {e : GraphError α} :
    d.HasTolerance → d.nodeNames.Nodup → d.segments = before ++ r :: after →
    d.JoinsNodes before → d.BreaksRecord before r e → Refuses near d e
  | radii {before after : List α} {r : α} :
    d.HasTolerance → d.nodeNames.Nodup → d.JoinsNodes d.segments →
    d.rules.radii = before ++ r :: after → (∀ s ∈ before, IsRadius s) → ¬ IsRadius r →
    Refuses near d (.invalidRadius r)
  | apart {e : GraphError α} :
    d.HasTolerance → d.nodeNames.Nodup → d.JoinsNodes d.segments →
    (∀ r ∈ d.rules.radii, IsRadius r) → TooClose near (d.nodes.map (·.position)) e →
    Refuses near d e

omit [Scalar α] in
theorem BreaksRecord.not_joinsNodes {before after : List SegmentRecord} {r : SegmentRecord}
    {e : GraphError α} (h : d.BreaksRecord before r e) :
    ¬ d.JoinsNodes (before ++ r :: after) := by
  intro hjoins
  have hends := hjoins.ends r (by simp)
  cases h with
  | duplicateId hmem =>
      have hnodup := hjoins.nodup
      rw [List.map_append, List.map_cons, List.nodup_append] at hnodup
      exact hnodup.2.2 _ hmem _ List.mem_cons_self rfl
  | unknownTail _ htail => exact htail hends.1
  | unknownHead _ _ hhead => exact hhead hends.2.1
  | selfLoop _ _ hloop => exact hends.2.2 hloop

/-- A document with a fault is not well formed. -/
theorem Refuses.not_isWellFormed {near : Vec α → Vec α → Prop} {e : GraphError α}
    (h : d.Refuses near e) : ¬ d.IsWellFormed near := by
  intro hd
  cases h with
  | tolerance ht => exact ht hd.tolerance
  | nodes _ hsplit _ hmem =>
      have hnodup := hd.nodes
      rw [hsplit, List.nodup_append] at hnodup
      exact hnodup.2.2 _ hmem _ List.mem_cons_self rfl
  | segments _ _ hsplit _ hbroken => exact hbroken.not_joinsNodes (hsplit ▸ hd.segments)
  | radii _ _ _ hsplit _ hr => exact hr (hd.radii _ (by simp [hsplit]))
  | apart _ _ _ _ hclose => exact hclose.not_pairwise hd.apart

/-- Only a usable tolerance is ever compared with. -/
theorem isWellFormed_congr {near near' : Vec α → Vec α → Prop}
    (hnear : d.HasTolerance → near = near') (h : d.IsWellFormed near) : d.IsWellFormed near' :=
  hnear h.tolerance ▸ h

theorem Refuses.congr {near near' : Vec α → Vec α → Prop} {e : GraphError α}
    (hnear : d.HasTolerance → near = near') (h : d.Refuses near e) : d.Refuses near' e := by
  by_cases ht : d.HasTolerance
  · exact hnear ht ▸ h
  · cases h with
    | tolerance ht => exact .tolerance ht
    | nodes h | segments h | radii h | apart h => exact absurd h ht

/-! ## Looking up nodes -/

omit [Scalar α] in
theorem nodeIndex?_eq_none_iff {name : String} : d.nodeIndex? name = none ↔ name ∉ d.nodeNames := by
  rw [nodeIndex?, List.findIdx?_eq_none_iff, nodeNames, List.forall_mem_map]
  simp

omit [Scalar α] in
theorem exists_nodeIndex?_iff {name : String} :
    (∃ i, d.nodeIndex? name = some i) ↔ name ∈ d.nodeNames := by
  rw [← Option.ne_none_iff_exists', Ne, nodeIndex?_eq_none_iff, not_not]

omit [Scalar α] in
theorem lt_length_of_nodeIndex? {name : String} {i : Nat} (h : d.nodeIndex? name = some i) :
    i < d.nodes.length := by
  obtain ⟨⟨r, hr, _⟩, _⟩ := nodeIndex?_eq_some_iff.mp h
  exact (List.getElem?_eq_some_iff.mp hr).1

omit [Scalar α] in
/-- Two names that lead to the same node are the same. -/
theorem eq_of_nodeIndex? {s t : String} {i : Nat} (hs : d.nodeIndex? s = some i)
    (ht : d.nodeIndex? t = some i) : s = t := by
  obtain ⟨⟨r, hr, rfl⟩, _⟩ := nodeIndex?_eq_some_iff.mp hs
  obtain ⟨⟨r', hr', rfl⟩, _⟩ := nodeIndex?_eq_some_iff.mp ht
  rw [hr] at hr'
  cases hr'
  rfl

/-! ## Reading the roads -/

omit [Scalar α] in
theorem endOf_of_not_mem {r : SegmentRecord} {name : String} (h : name ∉ d.nodeNames) :
    d.endOf r name = .error (.unknownNode (.name r.id) (.name name)) := by
  rw [endOf, nodeIndex?_eq_none_iff.mpr h]

theorem exists_edgeOf_eq_ok {r : SegmentRecord} (htail : r.tail ∈ d.nodeNames)
    (hhead : r.head ∈ d.nodeNames) (hne : r.tail ≠ r.head) (source : Nat) :
    ∃ e, d.edgeOf r source = .ok e := by
  obtain ⟨i, hi⟩ := exists_nodeIndex?_iff.mpr htail
  obtain ⟨j, hj⟩ := exists_nodeIndex?_iff.mpr hhead
  have hij : i ≠ j := fun heq => hne (eq_of_nodeIndex? hi (heq ▸ hj))
  exact ⟨_, edgeOf_eq_ok_iff.mpr ⟨i, j, hi, hj, hij, rfl⟩⟩

theorem edgesFrom_cons_of_breaksRecord {before rest : List SegmentRecord} {r : SegmentRecord}
    {e : GraphError α} (h : d.BreaksRecord before r e) (source : Nat) :
    d.edgesFrom (before.map (·.id)).reverse source (r :: rest) = .error e := by
  have hlook {name : String} (hname : name ∈ d.nodeNames) : ∃ i, d.endOf r name = .ok i := by
    obtain ⟨i, hi⟩ := exists_nodeIndex?_iff.mpr hname
    exact ⟨i, endOf_eq_ok_iff.mpr hi⟩
  rw [edgesFrom, List.contains_reverse]
  cases h with
  | duplicateId hmem => rw [if_pos (List.contains_iff_mem.mpr hmem)]
  | unknownTail hnew htail =>
      rw [if_neg (mt List.contains_iff_mem.mp hnew), edgeOf, endOf_of_not_mem htail]
      rfl
  | unknownHead hnew htail hhead =>
      obtain ⟨i, hi⟩ := hlook htail
      rw [if_neg (mt List.contains_iff_mem.mp hnew), edgeOf, hi, endOf_of_not_mem hhead]
      rfl
  | selfLoop hnew htail hloop =>
      obtain ⟨i, hi⟩ := hlook htail
      rw [if_neg (mt List.contains_iff_mem.mp hnew), edgeOf, ← hloop, hi]
      change (if i = i then Except.error _ else Except.ok _) >>= _ = _
      rw [if_pos rfl]
      rfl

omit [Scalar α] in
theorem joins_or_breaksRecord (d : NetworkDocument α) (before : List SegmentRecord)
    (r : SegmentRecord) :
    (r.id ∉ before.map (·.id) ∧ r.tail ∈ d.nodeNames ∧ r.head ∈ d.nodeNames ∧ r.tail ≠ r.head) ∨
      ∃ e, d.BreaksRecord before r e := by
  by_cases hnew : r.id ∈ before.map (·.id)
  · exact .inr ⟨_, .duplicateId hnew⟩
  · by_cases htail : r.tail ∈ d.nodeNames
    · by_cases hhead : r.head ∈ d.nodeNames
      · by_cases hloop : r.tail = r.head
        · exact .inr ⟨_, .selfLoop hnew htail hloop⟩
        · exact .inl ⟨hnew, htail, hhead, hloop⟩
      · exact .inr ⟨_, .unknownHead hnew htail hhead⟩
    · exact .inr ⟨_, .unknownTail hnew htail⟩

omit [Scalar α] in
theorem JoinsNodes.concat {before : List SegmentRecord} {r : SegmentRecord}
    (h : d.JoinsNodes before) (hnew : r.id ∉ before.map (·.id))
    (hends : r.tail ∈ d.nodeNames ∧ r.head ∈ d.nodeNames ∧ r.tail ≠ r.head) :
    d.JoinsNodes (before ++ [r]) where
  nodup := by
    rw [List.map_append, List.map_singleton, ← List.concat_eq_append]
    exact h.nodup.concat hnew
  ends := by
    rw [List.forall_mem_append, List.forall_mem_singleton]
    exact ⟨h.ends, hends⟩

/-- Roads are read until the first broken record, if there is one. -/
theorem edgesFrom_outcome {before : List SegmentRecord} (hbefore : d.JoinsNodes before)
    (rest : List SegmentRecord) (source : Nat) :
    (d.JoinsNodes (before ++ rest) ∧
      ∃ edges, d.edgesFrom (before.map (·.id)).reverse source rest = .ok edges) ∨
    ∃ more r after e, rest = more ++ r :: after ∧ d.JoinsNodes (before ++ more) ∧
      d.BreaksRecord (before ++ more) r e ∧
      d.edgesFrom (before.map (·.id)).reverse source rest = .error e := by
  -- The record that is read moves over to those before it.
  induction rest generalizing before source with
  | nil => exact .inl ⟨by rwa [List.append_nil], [], rfl⟩
  | cons r rest ih =>
      rcases d.joins_or_breaksRecord before r with ⟨hnew, hends⟩ | ⟨e, he⟩
      · obtain ⟨edge, hedge⟩ := exists_edgeOf_eq_ok hends.1 hends.2.1 hends.2.2 source
        have hsplit : before ++ r :: rest = (before ++ [r]) ++ rest := by simp
        have hseen : r.id :: (before.map (·.id)).reverse =
            ((before ++ [r]).map (·.id)).reverse := by simp
        have hread : d.edgesFrom (before.map (·.id)).reverse source (r :: rest) =
            (d.edgesFrom ((before ++ [r]).map (·.id)).reverse (source + 1) rest).map (edge :: ·) := by
          rw [edgesFrom, List.contains_reverse, if_neg (mt List.contains_iff_mem.mp hnew), hedge,
            hseen]
          rfl
        rw [hread, hsplit]
        rcases ih (hbefore.concat hnew hends) (source + 1) with
          ⟨hjoins, edges, hedges⟩ | ⟨more, s, after, e, rfl, hjoins, hbroken, he⟩
        · exact .inl ⟨hjoins, edge :: edges, by rw [hedges]; rfl⟩
        · rw [List.append_assoc, List.singleton_append] at hjoins hbroken
          exact .inr ⟨r :: more, s, after, e, rfl, hjoins, hbroken, by rw [he]; rfl⟩
      · exact .inr ⟨[], r, rest, e, rfl, by rwa [List.append_nil], by rwa [List.append_nil],
          edgesFrom_cons_of_breaksRecord he source⟩

/-! ## Reading the document -/

omit [Scalar α] in
theorem exists_of_firstRepeated_eq_some {seen names : List String} {id : String}
    (h : firstRepeated seen names = some id) :
    ∃ before after, names = before ++ id :: after ∧ before.Nodup ∧ (∀ s ∈ before, s ∉ seen) ∧
      (id ∈ seen ∨ id ∈ before) := by
  induction names generalizing seen with
  | nil => cases h
  | cons s names ih =>
      rw [firstRepeated] at h
      split at h
      · next hseen =>
          obtain rfl := Option.some.inj h
          exact ⟨[], names, rfl, .nil, List.forall_mem_nil _, .inl (List.contains_iff_mem.mp hseen)⟩
      · next hseen =>
          obtain ⟨before, after, rfl, hnodup, hnew, hmem⟩ := ih h
          have hs : s ∉ before := fun hs => hnew s hs List.mem_cons_self
          refine ⟨s :: before, after, rfl, List.nodup_cons.mpr ⟨hs, hnodup⟩, ?_, ?_⟩
          · exact List.forall_mem_cons.mpr ⟨mt List.contains_iff_mem.mpr hseen,
              fun t ht => mt (List.mem_cons_of_mem s) (hnew t ht)⟩
          · rw [List.mem_cons, or_assoc] at hmem
            rw [List.mem_cons]
            tauto

theorem hasTolerance_iff : d.HasTolerance ↔ Network.isTolerance d.tolerance = true := by
  simp [HasTolerance, Network.isTolerance]

theorem isRadius_iff {r : α} : IsRadius r ↔ ¬ (!Scalar.isFinite r || decide (r < 0.0)) = true := by
  simp [IsRadius]

theorem badRadius?_eq_none_iff {rules : JunctionRules α} :
    rules.badRadius? = none ↔ ∀ r ∈ rules.radii, IsRadius r := by
  rw [JunctionRules.badRadius?, List.find?_eq_none]
  simp only [isRadius_iff]

theorem exists_of_badRadius?_eq_some {rules : JunctionRules α} {r : α}
    (h : rules.badRadius? = some r) :
    ∃ before after, rules.radii = before ++ r :: after ∧ (∀ s ∈ before, IsRadius s) ∧
      ¬ IsRadius r := by
  obtain ⟨hr, before, after, hsplit, hbefore⟩ := List.find?_eq_some_iff_append.mp h
  refine ⟨before, after, hsplit, fun s hs => isRadius_iff.mpr ?_, ?_⟩
  · simpa using hbefore s hs
  · rwa [isRadius_iff, not_not]

theorem toNetwork_of_not_hasTolerance (h : ¬ d.HasTolerance) :
    d.toNetwork = .error (.invalidTolerance d.tolerance) := by
  rw [toNetwork, if_pos (by simpa [hasTolerance_iff] using h)]
  rfl

theorem toNetwork_of_firstRepeated {id : String} (htolerance : d.HasTolerance)
    (h : firstRepeated [] d.nodeNames = some id) : d.toNetwork = .error (.duplicateId id) := by
  rw [nodeNames] at h
  rw [toNetwork, hasTolerance_iff.mp htolerance, h]
  rfl

omit [Scalar α] in
theorem firstRepeated_nodeNames (h : d.nodeNames.Nodup) :
    firstRepeated [] (d.nodes.map (·.id)) = none :=
  firstRepeated_eq_none_iff.mpr ⟨h, fun _ _ => List.not_mem_nil⟩

theorem toNetwork_of_edgesFrom_eq_error {e : GraphError α} (htolerance : d.HasTolerance)
    (hnodes : d.nodeNames.Nodup) (h : d.edgesFrom [] 0 d.segments = .error e) :
    d.toNetwork = .error e := by
  rw [toNetwork, hasTolerance_iff.mp htolerance, firstRepeated_nodeNames hnodes, h]
  rfl

theorem toNetwork_of_edgesFrom {edges : List (Edge α)} (htolerance : d.HasTolerance)
    (hnodes : d.nodeNames.Nodup) (hedges : d.edgesFrom [] 0 d.segments = .ok edges) :
    d.toNetwork = match d.rules.badRadius? with
      | some r => .error (.invalidRadius r)
      | none => (d.networkOf edges).validate.map fun _ => d.networkOf edges := by
  rw [toNetwork, hasTolerance_iff.mp htolerance, firstRepeated_nodeNames hnodes, hedges]
  cases d.rules.badRadius? with
  | some r => rfl
  | none =>
    change (d.networkOf edges).validate >>= (fun _ => Except.ok (d.networkOf edges)) = _
    cases (d.networkOf edges).validate <;> rfl

theorem forall_exists_edgeOf {records : List (SegmentRecord × Nat)} {edges : List (Edge α)}
    (h : List.Forall₂ (fun r e => d.edgeOf r.1 r.2 = .ok e) records edges) :
    ∀ e ∈ edges, ∃ r source, d.edgeOf r source = .ok e := by
  induction h with
  | nil => exact List.forall_mem_nil _
  | cons hr _ ih => exact List.forall_mem_cons.mpr ⟨⟨_, _, hr⟩, ih⟩

theorem joinsNodes_networkOf {edges : List (Edge α)}
    (hedges : d.edgesFrom [] 0 d.segments = .ok edges) : (d.networkOf edges).JoinsNodes := by
  intro e he
  obtain ⟨r, source, hr⟩ := forall_exists_edgeOf (edgesFrom_eq_ok_iff.mp hedges).2 e he
  obtain ⟨i, j, hi, hj, hij, rfl⟩ := edgeOf_eq_ok_iff.mp hr
  rw [networkOf, Network.length_nodes_ofParts, List.length_map]
  exact ⟨lt_length_of_nodeIndex? hi, lt_length_of_nodeIndex? hj, hij⟩

/-- The check of the network that was read can only fail for two nodes that are too close. -/
theorem validate_networkOf {edges : List (Edge α)}
    (hedges : d.edgesFrom [] 0 d.segments = .ok edges) :
    (d.networkOf edges).validate = .ok () ∧
        (d.nodes.map (·.position)).Pairwise (fun q p => ¬ IsNear d.tolerance q p) ∨
      ∃ e, (d.networkOf edges).validate = .error e ∧
        TooClose (IsNear d.tolerance) (d.nodes.map (·.position)) e := by
  have hpositions : (d.networkOf edges).nodes.map (·.position) = d.nodes.map (·.position) := by
    rw [networkOf, Network.map_position_nodes_ofParts, List.map_map]
    rfl
  have hcheck := Network.validate_eq_checkDistances (joinsNodes_networkOf hedges)
    (Network.listsRoads_ofParts _ _ _ _ _ _)
  rw [hcheck]
  cases h : (d.networkOf edges).checkDistances with
  | ok =>
      have hapart := nearPairs_eq_nil_iff.mp (Network.checkDistances_eq_ok_iff.mp h)
      rw [hpositions] at hapart
      exact .inl ⟨rfl, hapart⟩
  | error e =>
      have hclose := Network.tooClose_of_checkDistances_eq_error h
      rw [hpositions] at hclose
      exact .inr ⟨e, rfl, hclose⟩

/-- A document is well formed and read, or it is refused for its first fault. -/
theorem isWellFormed_or_refuses (d : NetworkDocument α) :
    (d.IsWellFormed (IsNear d.tolerance) ∧ ∃ n, d.toNetwork = .ok n) ∨
      ∃ e, d.Refuses (IsNear d.tolerance) e ∧ d.toNetwork = .error e := by
  by_cases htolerance : d.HasTolerance
  swap
  · exact .inr ⟨_, .tolerance htolerance, toNetwork_of_not_hasTolerance htolerance⟩
  cases hnames : firstRepeated [] d.nodeNames with
  | some id =>
    obtain ⟨before, after, hsplit, hnodup, _, hmem⟩ := exists_of_firstRepeated_eq_some hnames
    exact .inr ⟨_, .nodes htolerance hsplit hnodup (hmem.resolve_left List.not_mem_nil),
      toNetwork_of_firstRepeated htolerance hnames⟩
  | none =>
    have hnodes : d.nodeNames.Nodup := (firstRepeated_eq_none_iff.mp hnames).1
    have hnone : d.JoinsNodes [] := ⟨.nil, List.forall_mem_nil _⟩
    rcases edgesFrom_outcome hnone d.segments 0 with
      ⟨hjoins, edges, hedges⟩ | ⟨before, r, after, e, hsplit, hjoins, hbroken, he⟩
    swap
    · exact .inr ⟨e, .segments htolerance hnodes hsplit hjoins hbroken,
        toNetwork_of_edgesFrom_eq_error htolerance hnodes he⟩
    have hread := toNetwork_of_edgesFrom htolerance hnodes hedges
    cases hradius : d.rules.badRadius? with
    | some r =>
      obtain ⟨before, after, hsplit, hbefore, hr⟩ := exists_of_badRadius?_eq_some hradius
      rw [hradius] at hread
      exact .inr ⟨_, .radii htolerance hnodes hjoins hsplit hbefore hr, hread⟩
    | none =>
      have hradii := badRadius?_eq_none_iff.mp hradius
      rw [hradius] at hread
      rcases validate_networkOf hedges with ⟨hvalid, hapart⟩ | ⟨e, he, hclose⟩
      · rw [hvalid] at hread
        exact .inl ⟨⟨htolerance, hnodes, hjoins, hradii, hapart⟩, _, hread⟩
      · rw [he] at hread
        exact .inr ⟨e, .apart htolerance hnodes hjoins hradii hclose, hread⟩

theorem exists_toNetwork_eq_ok_iff :
    (∃ n, d.toNetwork = .ok n) ↔ d.IsWellFormed (IsNear d.tolerance) := by
  rcases d.isWellFormed_or_refuses with ⟨hd, hread⟩ | ⟨e, hrefuses, he⟩
  · exact iff_of_true hread hd
  · exact iff_of_false (fun ⟨n, hn⟩ => nomatch he.symm.trans hn) hrefuses.not_isWellFormed

theorem refuses_of_toNetwork_eq_error {e : GraphError α} (h : d.toNetwork = .error e) :
    d.Refuses (IsNear d.tolerance) e := by
  rcases d.isWellFormed_or_refuses with ⟨_, n, hn⟩ | ⟨e', hrefuses, he⟩
  · cases h.symm.trans hn
  · obtain rfl := Except.error.inj (h.symm.trans he)
    exact hrefuses

/-- Over the reals, two nodes are near when their distance is within the tolerance. -/
theorem isNear_eq_of_hasTolerance {d : NetworkDocument ℝ} (h : d.HasTolerance) :
    IsNear d.tolerance = fun q p => q.dist p ≤ d.tolerance := by
  have hpos : 0 < d.tolerance := by
    have hneg := h.2
    norm_num at hneg
    exact hneg
  funext q p
  exact propext (isNear_iff hpos)

/-- Reading accepts the well-formed documents and refuses the others for their first fault. No node
is looked up beyond the last one, every cell that is looked up has a number of 64 bits, and the check
of the network that was read fails for two nodes that are too close only. Over the reals, nodes are too
close when their distance is within the tolerance. -/
theorem toNetwork_outcome :
    (∀ d : NetworkDocument α,
      ((∃ n, d.toNetwork = .ok n) ↔ d.IsWellFormed (IsNear d.tolerance)) ∧
      (∀ e, d.toNetwork = .error e → d.Refuses (IsNear d.tolerance) e) ∧
      (∀ name i, d.nodeIndex? name = some i → i < d.nodes.length) ∧
      (∀ v, Int64.minValue.toInt < (Grid.empty d.tolerance).cellIndex v ∧
        (Grid.empty d.tolerance).cellIndex v < Int64.maxValue.toInt) ∧
      ∀ edges, d.edgesFrom [] 0 d.segments = .ok edges →
        (d.networkOf edges).JoinsNodes ∧
        ∀ e, (d.networkOf edges).validate = .error e →
          TooClose (IsNear d.tolerance) (d.nodes.map (·.position)) e) ∧
    ∀ d : NetworkDocument ℝ,
      ((∃ n, d.toNetwork = .ok n) ↔ d.IsWellFormed fun q p => q.dist p ≤ d.tolerance) ∧
      ∀ e, d.toNetwork = .error e → d.Refuses (fun q p => q.dist p ≤ d.tolerance) e := by
  constructor
  · intro d
    refine ⟨exists_toNetwork_eq_ok_iff, fun e => refuses_of_toNetwork_eq_error,
      fun name i => lt_length_of_nodeIndex?, (Grid.empty d.tolerance).cellIndex_bounds,
      fun edges hedges => ⟨joinsNodes_networkOf hedges, ?_⟩⟩
    intro e he
    rcases validate_networkOf hedges with ⟨hvalid, _⟩ | ⟨e', he', hclose⟩
    · cases he.symm.trans hvalid
    · obtain rfl := Except.error.inj (he.symm.trans he')
      exact hclose
  · intro d
    constructor
    · rw [exists_toNetwork_eq_ok_iff]
      exact ⟨isWellFormed_congr isNear_eq_of_hasTolerance,
        isWellFormed_congr fun h => (isNear_eq_of_hasTolerance h).symm⟩
    · intro e he
      exact (refuses_of_toNetwork_eq_error he).congr isNear_eq_of_hasTolerance

/-- A document with two roads between the same nodes and a third node at `p`, where no road ends. -/
noncomputable def twinned (p : Vec ℝ) : NetworkDocument ℝ where
  name := "twinned"
  mergeTolerance := some 1
  junctions := none
  nodes := [⟨"a", ⟨0, 0⟩, 0⟩, ⟨"b", ⟨2, 0⟩, 0⟩, ⟨"c", p, 0⟩]
  segments := [⟨"s", "a", "b", "street"⟩, ⟨"t", "a", "b", "lane"⟩]
  intersections := []

theorem toNetwork_twinned :
    (∃ n, (twinned ⟨0, 2⟩).toNetwork = .ok n) ∧ ¬ ∃ n, (twinned ⟨2, 1⟩).toNetwork = .ok n := by
  have hfar {p q : Vec ℝ} (h : 2 ≤ |q.x - p.x| ∨ 2 ≤ |q.y - p.y|) : ¬ p.dist q ≤ 1 := by
    intro hle
    rcases h with h | h
    · linarith [Vec.abs_x_sub_le_dist p q]
    · linarith [Vec.abs_y_sub_le_dist p q]
  have hnear : (⟨2, 0⟩ : Vec ℝ).dist ⟨2, 1⟩ = 1 := by
    rw [Vec.dist_eq]
    norm_num
  rw [(toNetwork_outcome (α := ℝ).2 _).1, (toNetwork_outcome (α := ℝ).2 _).1]
  constructor
  · refine ⟨⟨rfl, ?_⟩, by decide, ⟨by decide, by simp [twinned, nodeNames]⟩, ?_, ?_⟩
    · change ¬ (1 : ℝ) ≤ 0.0
      norm_num
    · refine List.forall_mem_singleton.mpr ⟨rfl, ?_⟩
      change ¬ (2.0 : ℝ) < 0.0
      norm_num
    · change List.Pairwise _ [(⟨0, 0⟩ : Vec ℝ), ⟨2, 0⟩, ⟨0, 2⟩]
      rw [List.pairwise_cons, List.forall_mem_cons, List.forall_mem_singleton, List.pairwise_pair]
      exact ⟨⟨hfar (by norm_num), hfar (by norm_num)⟩, hfar (by norm_num)⟩
  · intro h
    have hapart := (List.pairwise_cons.mp (List.pairwise_cons.mp h.apart).2).1 _
      (List.mem_singleton.mpr rfl)
    exact hapart hnear.le

end NetworkDocument

end Roadworks
