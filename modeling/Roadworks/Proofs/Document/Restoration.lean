import Roadworks.Proofs.Document.RoundTrip
/-! # Rules that are restored from intersections

A document without rules still tells the radius of every kind of intersection that it has. The rules
that are restored from it are those of its network as far as the network can tell the difference. -/

namespace Roadworks

variable {α : Type} [Scalar α]

namespace JunctionRules

variable {r s : JunctionRules α} {approaches : List (Vec α)}

/-! ## Rules with other radii -/

/-- The rules differ in nothing but their radii. -/
structure SharesSettings (r s : JunctionRules α) : Prop where
  minRoundaboutDegree : s.minRoundaboutDegree = r.minRoundaboutDegree
  passMaxBend : s.passMaxBend = r.passMaxBend
  circularTolerance : s.circularTolerance = r.circularTolerance

/-- The kind of an intersection that is no roundabout, by the number of its roads. -/
def kindByDegree (r : JunctionRules α) : List (Vec α) → Option IntersectionType
  | [v, w] => if r.isPass v w then some .pass else none
  | [_, _, _] => some .threeWay
  | [_, _, _, _] => some .fourWay
  | _ => none

theorem kindByDegree_ne_roundabout (r : JunctionRules α) (approaches : List (Vec α)) :
    r.kindByDegree approaches ≠ some .roundabout := by
  unfold kindByDegree
  split
  · split <;> simp
  all_goals simp

theorem classify_eq (r : JunctionRules α) (approaches : List (Vec α)) :
    r.classify approaches =
      if approaches.length < 2 then none
      else if r.roundaboutRadius.isSome ∧ max r.minRoundaboutDegree.toNat 3 ≤ approaches.length
        ∧ r.isCircular approaches then some .roundabout
      else r.kindByDegree approaches := rfl

theorem isSome_of_classify_eq_roundabout (h : r.classify approaches = some .roundabout) :
    r.roundaboutRadius.isSome := by
  rw [classify_eq] at h
  split at h
  · cases h
  · split at h
    · next hround => exact hround.1
    · exact absurd h (r.kindByDegree_ne_roundabout approaches)

theorem SharesSettings.kindByDegree_eq (h : r.SharesSettings s) :
    s.kindByDegree approaches = r.kindByDegree approaches := by
  have hpass : s.isPass = r.isPass := by
    funext v w
    rw [isPass, isPass, h.passMaxBend]
  unfold kindByDegree
  rw [hpass]

/-- Of the radii, kinds of intersections depend on nothing but whether there are roundabouts. -/
theorem SharesSettings.classify_eq_of_isSome (h : r.SharesSettings s)
    (hround : s.roundaboutRadius.isSome = r.roundaboutRadius.isSome) :
    s.classify approaches = r.classify approaches := by
  rw [classify_eq, classify_eq, h.kindByDegree_eq, hround, h.minRoundaboutDegree, isCircular,
    isCircular, h.circularTolerance]

/-- Without roundabouts, an intersection that is none stays as it is. -/
theorem SharesSettings.classify_eq_of_ne (h : r.SharesSettings s)
    (hnone : s.roundaboutRadius = none) (hne : r.classify approaches ≠ some .roundabout) :
    s.classify approaches = r.classify approaches := by
  rw [classify_eq] at hne ⊢
  rw [classify_eq, h.kindByDegree_eq]
  split
  · rfl
  · next hlength =>
      rw [if_neg hlength] at hne
      rw [if_neg (by simp [hnone]), if_neg fun hround => hne (if_pos hround)]

end JunctionRules

/-- The document without the rules of its network. -/
def NetworkDocument.withoutRules (d : NetworkDocument α) : NetworkDocument α :=
  { d with junctions := none }

namespace Network

variable {n : Network α} {s : JunctionRules α}

/-! ## Rules that agree on what there is -/

/-- The network under other rules. -/
def withRules (n : Network α) (s : JunctionRules α) : Network α := { n with rules := s }

/-- Rules that differ from those of a network in radii that none of its intersections has. -/
structure Agrees (n : Network α) (s : JunctionRules α) : Prop where
  settings : n.rules.SharesSettings s
  roundabouts : s.roundaboutRadius = n.rules.roundaboutRadius ∨
    s.roundaboutRadius = none ∧ ∀ i, n.intersectionType i ≠ some .roundabout
  others : s.intersectionRadius = n.rules.intersectionRadius ∨
    s.intersectionRadius = JunctionRules.default.intersectionRadius ∧
      ∀ i kind, n.intersectionType i = some kind → kind = .roundabout

theorem exists_roundaboutRadius {i : Nat} (h : n.intersectionType i = some .roundabout) :
    ∃ radius, n.rules.roundaboutRadius = some radius := by
  rw [intersectionType] at h
  split at h
  · cases h
  · exact Option.isSome_iff_exists.mp (JunctionRules.isSome_of_classify_eq_roundabout h)

theorem Agrees.intersectionType_eq (h : n.Agrees s) (i : Nat) :
    (n.withRules s).intersectionType i = n.intersectionType i := by
  cases hv : n.nodes[i]? with
  | none => rw [intersectionType, intersectionType, withRules, hv]
  | some v =>
      have hkind : n.intersectionType i = n.rules.classify (v.incident.filterMap (n.approach i)) := by
        rw [intersectionType, hv]
      have hkind' : (n.withRules s).intersectionType i =
          s.classify (v.incident.filterMap (n.approach i)) := by
        rw [intersectionType, withRules, hv]
        rfl
      rw [hkind', hkind]
      rcases h.roundabouts with hsame | ⟨hnone, hne⟩
      · exact h.settings.classify_eq_of_isSome (by rw [hsame])
      · exact h.settings.classify_eq_of_ne hnone (hkind ▸ hne i)

/-- The intersections that there are have their radii. -/
theorem Agrees.radiusFor_eq (h : n.Agrees s) {i : Nat} {kind : IntersectionType}
    (hkind : n.intersectionType i = some kind) : s.radiusFor kind = n.rules.radiusFor kind := by
  cases kind with
  | roundabout =>
      obtain ⟨radius, hradius⟩ := exists_roundaboutRadius hkind
      rcases h.roundabouts with hsame | ⟨_, hne⟩
      · rw [JunctionRules.radiusFor, JunctionRules.radiusFor, hsame, hradius]
        rfl
      · exact absurd hkind (hne i)
  | pass | threeWay | fourWay =>
      rcases h.others with hsame | ⟨_, hall⟩
      · exact hsame
      · cases hall i _ hkind

theorem Agrees.badRadius?_eq_none (h : n.Agrees s)
    (hdefault : (JunctionRules.default (α := α)).badRadius? = none)
    (hn : n.rules.badRadius? = none) : s.badRadius? = none := by
  simp only [JunctionRules.badRadius?, JunctionRules.radii, List.find?_eq_none,
    List.forall_mem_cons] at *
  constructor
  · rcases h.others with hsame | ⟨hsame, _⟩
    · exact hsame ▸ hn.1
    · exact hsame ▸ hdefault.1
  · rcases h.roundabouts with hsame | ⟨hnone, _⟩
    · exact hsame ▸ hn.2
    · rw [hnone]
      exact List.forall_mem_nil _

/-! ## What the records tell -/

theorem exists_record {i : Nat} {kind : IntersectionType} (h : n.intersectionType i = some kind) :
    ∃ r ∈ n.toDocument.intersections, r.kind = kind := by
  have hi : i < n.nodes.length := by
    by_contra hlength
    rw [intersectionType, List.getElem?_eq_none (Nat.not_lt.mp hlength)] at h
    cases h
  exact ⟨_, mem_intersections_toDocument_iff.mpr ⟨i, kind, ⟨hi, h⟩, rfl⟩, rfl⟩

/-- The restored rules differ from those of the network in radii that no record tells. -/
theorem agrees_restoreRules (hsettings : n.rules.SharesSettings .default) :
    n.Agrees (restoreRules n.toDocument.intersections) where
  settings := ⟨hsettings.minRoundaboutDegree, hsettings.passMaxBend, hsettings.circularTolerance⟩
  roundabouts := by
    rw [restoreRules]
    cases hfind : n.toDocument.intersections.find? (·.kind == .roundabout) with
    | some r =>
        obtain ⟨i, kind, ⟨_, hkind⟩, rfl⟩ :=
          mem_intersections_toDocument_iff.mp (List.mem_of_find?_eq_some hfind)
        obtain rfl : kind = .roundabout := by simpa using List.find?_some hfind
        obtain ⟨radius, hradius⟩ := exists_roundaboutRadius hkind
        refine .inl ?_
        rw [hradius, Option.map_some, JunctionRules.radiusFor, hradius]
        rfl
    | none =>
        refine .inr ⟨rfl, fun i hi => ?_⟩
        obtain ⟨r, hr, hkind⟩ := exists_record hi
        exact List.find?_eq_none.mp hfind r hr (by simp [hkind])
  others := by
    rw [restoreRules]
    cases hfind : n.toDocument.intersections.find? (·.kind != .roundabout) with
    | some r =>
        obtain ⟨i, kind, _, rfl⟩ :=
          mem_intersections_toDocument_iff.mp (List.mem_of_find?_eq_some hfind)
        have hother : kind ≠ .roundabout := by simpa using List.find?_some hfind
        refine .inl ?_
        cases kind with
        | roundabout => exact absurd rfl hother
        | pass | threeWay | fourWay => rfl
    | none =>
        refine .inr ⟨rfl, fun i kind hi => ?_⟩
        obtain ⟨r, hr, rfl⟩ := exists_record hi
        simpa using List.find?_eq_none.mp hfind r hr

/-- Under rules that agree, the same intersections are recorded. -/
theorem Agrees.intersections_toDocument_eq (h : n.Agrees s) :
    (n.withRules s).toDocument.intersections = n.toDocument.intersections := by
  have hkinds : (n.withRules s).intersections = n.intersections := by
    simp only [intersections, h.intersectionType_eq]
    rfl
  rw [toDocument, toDocument, hkinds]
  refine List.map_congr_left fun intersection hmem => ?_
  obtain ⟨i, kind⟩ := intersection
  dsimp only
  rw [← h.radiusFor_eq (mem_intersections_iff.mp hmem).2]
  rfl

/-! ## Documents without rules -/

/-- A network is read from its document without rules under the rules that are restored, if these
can be used. -/
theorem IsSound.toNetwork_withoutRules (h : n.IsSound)
    (hradius : (restoreRules n.toDocument.intersections).badRadius? = none) :
    n.toDocument.withoutRules.toNetwork =
      .ok (n.redrawn.withRules (restoreRules n.toDocument.intersections)) := by
  have hroads := NetworkDocument.edgesFrom_eq_ok_iff.mp (edgesFrom_toDocument h.joinsNodes)
  have hnetwork : n.redrawn.withRules (restoreRules n.toDocument.intersections) =
      n.toDocument.withoutRules.networkOf n.redrawn.edges := by
    rw [← networkOf_redrawn h.listsRoads]
    rfl
  have hcoherent := h.toIsCoherent.redrawn
  exact NetworkDocument.toNetwork_eq_ok_iff.mpr ⟨h.isTolerance, n.nodup_nodes_toDocument, hradius,
    n.redrawn.edges, NetworkDocument.edgesFrom_eq_ok_iff.mpr hroads, hnetwork,
    ⟨hcoherent.joinsNodes, hcoherent.listsRoads, hcoherent.apart⟩⟩

end Network

/-- A network whose rules are the usual ones but for their radii is read again from its document
without rules. The intersections and their radii are the same, and nothing is told about them. -/
theorem intersections_restored (n : Network Float) (hn : n.IsObtained)
    (hrules : n.rules.SharesSettings .default) :
    ∃ m, n.toDocument.withoutRules.toNetwork = .ok m ∧
      m.toDocument.intersections = n.toDocument.intersections ∧
      Notice.ofImport n.toDocument.withoutRules m = [] := by
  have hagrees : n.redrawn.Agrees (restoreRules n.toDocument.intersections) :=
    n.toDocument_redrawn ▸ Network.agrees_restoreRules (n := n.redrawn) hrules
  have hradius := hagrees.badRadius?_eq_none (by rfl) hn.isSound.badRadius
  refine ⟨_, hn.isSound.toNetwork_withoutRules hradius, ?_, ?_⟩
  · rw [hagrees.intersections_toDocument_eq, n.toDocument_redrawn]
  · exact Network.ofImport_eq_nil rfl rfl fun i =>
      (hagrees.intersectionType_eq i).trans (n.intersectionType_redrawn i)

/-- A document with rules for roundabouts and three roads that meet in no roundabout. -/
def fork : NetworkDocument Float where
  name := "fork"
  mergeTolerance := none
  junctions := some { JunctionRules.default with
    intersectionRadius := 3.0
    roundaboutRadius := some 15.0 }
  nodes := [⟨"hub", ⟨0.0, 0.0⟩, 0.0⟩, ⟨"east", ⟨5.0, 0.0⟩, 0.0⟩, ⟨"north", ⟨0.0, 5.0⟩, 0.0⟩,
    ⟨"west", ⟨-5.0, 0.0⟩, 0.0⟩]
  segments := [⟨"a", "hub", "east", "street"⟩, ⟨"b", "north", "hub", "street"⟩,
    ⟨"c", "hub", "west", "lane"⟩]
  intersections := []

/-- The network of `fork`. -/
def forked : Network Float :=
  fork.networkOf [⟨0, 1, fork.headingBetween 0 1, "street", 0⟩,
    ⟨2, 0, fork.headingBetween 2 0, "street", 1⟩, ⟨0, 3, fork.headingBetween 0 3, "lane", 2⟩]

theorem toNetwork_fork : fork.toNetwork = .ok forked := by
  refine NetworkDocument.toNetwork_eq_ok_iff.mpr ⟨by decide +kernel, by decide +kernel, by rfl, _,
    by rfl, rfl, ?_, Network.listsRoads_ofParts _ _ _ _ _ _, by decide +kernel⟩
  simp [Network.JoinsNodes, forked, NetworkDocument.networkOf, Network.ofParts, fork]

theorem intersections_restored_forked :
    fork.toNetwork = .ok forked ∧ forked.rules.SharesSettings .default ∧ ∃ m,
      forked.toDocument.withoutRules.toNetwork = .ok m ∧
      m.toDocument.intersections = [⟨"n0", .threeWay, 3.0⟩] ∧
      Notice.ofImport forked.toDocument.withoutRules m = [] := by
  have hrules : forked.rules.SharesSettings .default := ⟨rfl, rfl, rfl⟩
  obtain ⟨m, hread, hsame, hsilent⟩ :=
    intersections_restored forked (.imported toNetwork_fork) hrules
  refine ⟨toNetwork_fork, hrules, m, hread, ?_, hsilent⟩
  rw [hsame]
  rfl

end Roadworks
