import Roadworks.Proofs.Exact.Roads
import Roadworks.Proofs.Exact.Summary
import Roadworks.Proofs.Surface.Accounting
/-! # Roads meet without a gap

Where one road goes on as another, each of them is mitred on its own, against the direction in which
the other leaves. Both put a vertex at the same corner, whichever way they were drawn: where both
start or both end, left of the one is right of the other. -/

namespace Roadworks

open Vec

/-! ## Mitres -/

/-- A mitre seen in the other direction has its normal on the other side. -/
theorem Frame.miter_swap {d d' : Vec ℝ} (hd : d.norm = 1) (hd' : d'.norm = 1)
    (hturn : 1e-12 ≤ (d - d').norm2) (limit : ℝ) :
    miter (-d') d limit = ⟨-(miter (-d) d' limit).normal, (miter (-d) d' limit).scale⟩ := by
  have hsum : -d' + d = -(-d + d') := by abel
  have hsub : d - d' = -(-d + d') := by abel
  rw [hsub, norm2_neg] at hturn
  -- Both directions make the same angle with the mitre, since they are equally long.
  have hdot : (-(-d + d').unit).dot d = (-d + d').unit.dot d' := by
    have hsquare := norm_sq d
    have hsquare' := norm_sq d'
    rw [hd] at hsquare
    rw [hd'] at hsquare'
    simp only [unit_eq, dot, neg_x, neg_y, mul_x, mul_y, add_x, add_y]
    linear_combination (1 / (-d + d').norm) * (hsquare' - hsquare)
  rw [miter, miter, hsum]
  dsimp only
  rw [norm2_neg, if_neg hturn.not_gt, if_neg hturn.not_gt, unit_neg, hdot]
  rfl

/-- How a road is mitred at a node that it leaves in direction `d` and the other road in direction
`d'`. -/
noncomputable def Frame.joint (starts : Bool) (d d' : Vec ℝ) (limit : ℝ) : Frame ℝ :=
  if starts then miter (-d') d limit else miter (-d) d' limit

/-- The corner that a road has at a node, at an offset from its middle. -/
noncomputable def Node.corner (v : Node ℝ) (f : Frame ℝ) (offset lift : ℝ) : Vertex ℝ :=
  (v.position + f.normal * (offset * f.scale)).lift (v.elevation + lift)

/-- The offset at which the other road has the same corner: left of the one is right of the other
where both start or both end. -/
noncomputable def facing (starts starts' : Bool) (offset : ℝ) : ℝ :=
  if starts = starts' then -offset else offset

theorem Node.corner_joint {d d' : Vec ℝ} (hd : d.norm = 1) (hd' : d'.norm = 1)
    (hturn : 1e-12 ≤ (d - d').norm2) (v : Node ℝ) (starts starts' : Bool)
    (limit offset lift : ℝ) :
    v.corner (.joint starts' d' d limit) (facing starts starts' offset) lift =
      v.corner (.joint starts d d' limit) offset lift := by
  have hmirror (f : Frame ℝ) (x : ℝ) :
      v.corner ⟨-f.normal, f.scale⟩ (-x) lift = v.corner f x lift := by
    have hpoint : -f.normal * (-x * f.scale) = f.normal * (x * f.scale) := by
      ext <;> simp
    rw [corner, corner, hpoint]
  have hswap := Frame.miter_swap hd hd' hturn limit
  cases starts with
  | true =>
      cases starts' with
      | true =>
          change v.corner (.miter (-d) d' limit) (-offset) lift =
            v.corner (.miter (-d') d limit) offset lift
          rw [← hmirror (Frame.miter (-d) d' limit) (-offset), ← hswap, neg_neg]
      | false => rfl
  | false =>
      cases starts' with
      | true => rfl
      | false =>
          change v.corner (.miter (-d') d limit) (-offset) lift =
            v.corner (.miter (-d) d' limit) offset lift
          rw [hswap, hmirror]

namespace SweepPath

variable {v w : Node ℝ} {s t limit : ℝ} {arrival departure : Option (Vec ℝ)}

/-- A road that is not cut back begins at its node. -/
theorem vertexAt_straight_first (offset lift : ℝ) :
    let u := (w.position - v.position).unit
    (straight v w 0 t arrival departure limit).vertexAt true offset lift =
      some (v.corner (.miter (arrival.getD u) u limit) offset lift) := by
  rw [vertexAt, if_pos rfl, edge_straight, between_zero, mul_zero, add_zero]
  rfl

theorem vertexAt_straight_last (offset lift : ℝ) :
    let u := (w.position - v.position).unit
    (straight v w s 0 arrival departure limit).vertexAt false offset lift =
      some (w.corner (.miter u (departure.getD u) limit) offset lift) := by
  rw [vertexAt, if_neg Bool.false_ne_true, edge_straight, between_zero, mul_zero, add_zero]
  rfl

end SweepPath

namespace Network

variable {n : Network ℝ} {i j k : Nat} {v : Node ℝ}

/-- A node that needs no patch cuts nothing off. -/
theorem trim_patches_eq_zero (resolver : StyleResolver ℝ) (hv : n.nodes[k]? = some v)
    (hneeded : SizedPatch.isNeeded (n.intersectionType k) v.degree = false) :
    RoadSurface.trim (n.patches resolver) k = 0 := by
  have hnone : n.patch? resolver k = none := by
    rw [patch?, hv, Option.bind_some, SizedPatch.ofNode, hneeded]
    rfl
  rw [trim_patches, hnone, decimal_zero]
  rfl

theorem nodup_incident (h : n.validate = .ok ()) (hv : n.nodes[k]? = some v) :
    v.incident.Nodup := by
  obtain ⟨_, hlists, _⟩ := validate_eq_ok_iff.mp h
  rw [← (List.mergeSort_perm v.incident (fun a b => decide (a ≤ b))).nodup_iff, hlists k v hv]
  exact (pairwise_incidentTo n.edges k).imp fun hlt => hlt.ne

theorem touches_of_mem_incident (h : n.validate = .ok ()) (hv : n.nodes[k]? = some v)
    {e : Edge ℝ} (he : n.edges[i]? = some e) (hi : i ∈ v.incident) : e.touches k := by
  obtain ⟨f, hf, htouches⟩ := (mem_incident_iff h hv).mp hi
  rwa [Option.some.inj (he.symm.trans hf)]

/-- A road is mitred against the direction in which the other one leaves. -/
theorem passJoin_eq (h : n.validate = .ok ()) (hv : n.nodes[k]? = some v)
    (hkind : n.intersectionType k = some .pass) (hincident : v.incident.Perm [i, j]) :
    RoadSurface.passJoin n k i = n.approach k j := by
  have hne : i ≠ j := by
    simpa using hincident.nodup_iff.mp (nodup_incident h hv)
  have hother : v.incident.find? (· != i) = some j := by
    rcases List.perm_pair.mp hincident with heq | heq
    · simp [heq, hne.symm]
    · simp [heq, hne.symm]
  rw [RoadSurface.passJoin, if_pos hkind, hv]
  simp only [bind, Option.bind_some, hother]

end Network

namespace BuildOptions

variable {o : BuildOptions ℝ} {n : Network ℝ} {resolver : StyleResolver ℝ} {i k : Nat} {e : Edge ℝ}
  {v : Node ℝ} {d d' : Vec ℝ} {sweep : SweepPath ℝ}

/-- A road that goes on as another ends at the node itself, where it is mitred against the other. -/
theorem vertexAt_sweep (h : n.validate = .ok ()) (he : n.edges[i]? = some e)
    (htouches : e.touches k) (hv : n.nodes[k]? = some v)
    (hkind : n.intersectionType k = some .pass) (hd : n.approach k i = some d)
    (hjoin : RoadSurface.passJoin n k i = some d')
    (hsweep : o.sweep? n resolver i = some sweep) (offset lift : ℝ) :
    sweep.vertexAt (e.startsAt k) offset lift =
      some (v.corner (.joint (e.startsAt k) d d' o.miterLimit) offset lift) := by
  have hjoins := (Network.validate_eq_ok_iff.mp h).1
  obtain ⟨htail, hhead, hne⟩ := hjoins e (List.mem_of_getElem? he)
  have hnocut := Network.trim_patches_eq_zero resolver hv (by rw [hkind]; rfl)
  rcases Edge.touches_iff.mp htouches with rfl | rfl
  · have hfirst : e.startsAt e.tail = true := beq_self_eq_true _
    have hw := List.getElem?_eq_getElem hhead
    rw [o.sweep?_eq resolver he hv hw, hnocut, max_self, zero_div, hjoin] at hsweep
    obtain ⟨_, heq⟩ := (Option.ite_none_left_eq_some ..).mp hsweep
    rw [hjoins.approach_tail he, directionOf_eq_some_iff, Network.positionAt_eq hv,
      Network.positionAt_eq hw] at hd
    rw [← Option.some.inj heq, hfirst, SweepPath.vertexAt_straight_first, hd.2]
    rfl
  · have hlast : e.startsAt e.head = false := beq_eq_false_iff_ne.mpr hne
    have hu := List.getElem?_eq_getElem htail
    rw [o.sweep?_eq resolver he hu hv, hnocut, max_self, zero_div, hjoin] at hsweep
    obtain ⟨_, heq⟩ := (Option.ite_none_left_eq_some ..).mp hsweep
    rw [hjoins.approach_head he, directionOf_eq_some_iff, Network.positionAt_eq hv,
      Network.positionAt_eq hu] at hd
    rw [← Option.some.inj heq, hlast, SweepPath.vertexAt_straight_last, ← neg_sub, unit_neg, hd.2]
    rfl

/-- Both roads have the same corners where the one goes on as the other. -/
theorem vertexAt_meets {j : Nat} {f : Edge ℝ} {sweep' : SweepPath ℝ} (h : n.validate = .ok ())
    (hv : n.nodes[k]? = some v) (hkind : n.intersectionType k = some .pass)
    (hincident : v.incident.Perm [i, j]) (he : n.edges[i]? = some e) (hf : n.edges[j]? = some f)
    (hd : n.approach k i = some d) (hd' : n.approach k j = some d')
    (hturn : 1e-12 ≤ (d - d').norm2) (hsweep : o.sweep? n resolver i = some sweep)
    (hsweep' : o.sweep? n resolver j = some sweep') (offset lift : ℝ) :
    ∃ p, sweep.vertexAt (e.startsAt k) offset lift = some p ∧
      sweep'.vertexAt (f.startsAt k) (facing (e.startsAt k) (f.startsAt k) offset) lift =
        some p := by
  have hother := hincident.trans (List.Perm.swap j i [])
  have htouches := Network.touches_of_mem_incident h hv he (hincident.mem_iff.mpr (by simp))
  have htouches' := Network.touches_of_mem_incident h hv hf (hother.mem_iff.mpr (by simp))
  have hjoin := (Network.passJoin_eq h hv hkind hincident).trans hd'
  have hjoin' := (Network.passJoin_eq h hv hkind hother).trans hd
  refine ⟨_, vertexAt_sweep h he htouches hv hkind hd hjoin hsweep offset lift, ?_⟩
  rw [vertexAt_sweep h hf htouches' hv hkind hd' hjoin' hsweep',
    Node.corner_joint (Network.norm_of_approach hd) (Network.norm_of_approach hd') hturn]

end BuildOptions

/-! ## Bands -/

/-- Two bands of a kind lie at offsets that meet. -/
def Band.Faces (starts starts' : Bool) (b b' : Band ℝ) : Prop :=
  b'.kind = b.kind ∧ if starts = starts' then b'.left = -b.right ∧ b'.right = -b.left
    else b'.left = b.left ∧ b'.right = b.right

/-- A band of the one road and the band of the other that faces it end in the same corners. Left and
right change sides where both roads start or both end. -/
theorem cornersAt_of_faces {sweep sweep' : SweepPath ℝ} {starts starts' : Bool}
    (hlength : ∀ offset lift, (sweep.edge offset lift).length = 2)
    (hlength' : ∀ offset lift, (sweep'.edge offset lift).length = 2)
    (hmeet : ∀ offset lift, ∃ p, sweep.vertexAt starts offset lift = some p ∧
      sweep'.vertexAt starts' (facing starts starts' offset) lift = some p)
    (r : Resolved ℝ) {b b' : Band ℝ} (hfaces : b.Faces starts starts' b') :
    ∃ p q, (RoadSurface.bandSurface sweep r.curbHeight b).mesh.cornersAt starts = some (p, q) ∧
      (RoadSurface.bandSurface sweep' r.curbHeight b').mesh.cornersAt starts' =
        some (if starts = starts' then (q, p) else (p, q)) := by
  obtain ⟨p, hp, hp'⟩ := hmeet b.left (r.liftOf b)
  obtain ⟨q, hq, hq'⟩ := hmeet b.right (r.liftOf b)
  obtain ⟨hkind, hsides⟩ := hfaces
  have hlift : r.liftOf b' = r.liftOf b := by
    rw [Resolved.liftOf, hkind, ← Resolved.liftOf]
  refine ⟨p, q, cornersAt_bandSurface hlength hp hq, ?_⟩
  by_cases hsame : starts = starts'
  · rw [facing, if_pos hsame] at hp' hq'
    rw [if_pos hsame] at hsides ⊢
    rw [← hsides.1, ← hlift] at hq'
    rw [← hsides.2, ← hlift] at hp'
    exact cornersAt_bandSurface hlength' hq' hp'
  · rw [facing, if_neg hsame] at hp' hq'
    rw [if_neg hsame] at hsides ⊢
    rw [← hsides.1, ← hlift] at hp'
    rw [← hsides.2, ← hlift] at hq'
    exact cornersAt_bandSurface hlength' hp' hq'

namespace Builder

/-- Where a road goes on as another and does not turn back on itself, the edges of both meet in
space, at the same offset where one starts and the other ends, and else at opposite ones. So bands
of equal styles share their corners, whichever way the roads were drawn. -/
theorem build_meets {n : Network ℝ} (h : n.validate = .ok ()) {k i j : Nat} {v : Node ℝ}
    {e f : Edge ℝ} {d d' : Vec ℝ} (hv : n.nodes[k]? = some v)
    (hkind : n.intersectionType k = some .pass) (hincident : v.incident.Perm [i, j])
    (he : n.edges[i]? = some e) (hf : n.edges[j]? = some f) (hd : n.approach k i = some d)
    (hd' : n.approach k j = some d') (hturn : 1e-12 ≤ (d - d').norm2) (b : Builder ℝ)
    (resolver : StyleResolver ℝ) {g : Geometry ℝ} (hg : (b.build n resolver).2 = .ok g)
    {s t : RoadSurface ℝ} (hs : s ∈ g.roads) (hsi : s.segment = i) (ht : t ∈ g.roads)
    (htj : t.segment = j) :
    ∃ sweep sweep', b.options.sweep? n resolver i = some sweep ∧
      b.options.sweep? n resolver j = some sweep' ∧
      s.IsSwept (Resolved.ofEdge resolver e) sweep ∧
      t.IsSwept (Resolved.ofEdge resolver f) sweep' ∧
      (∀ offset lift, ∃ p, sweep.vertexAt (e.startsAt k) offset lift = some p ∧
        sweep'.vertexAt (f.startsAt k) (facing (e.startsAt k) (f.startsAt k) offset) lift =
          some p) ∧
      ((Resolved.ofEdge resolver e).profile = (Resolved.ofEdge resolver f).profile →
        ∀ (m m' : Nat) (x x' : Band ℝ),
          (Resolved.ofEdge resolver e).crossSection.bands[m]? = some x →
          (Resolved.ofEdge resolver f).crossSection.bands[m']? = some x' →
          x.Faces (e.startsAt k) (f.startsAt k) x' →
          ∃ y y' p q, s.surfaces[m]? = some y ∧ t.surfaces[m']? = some y' ∧
            y.mesh.cornersAt (e.startsAt k) = some (p, q) ∧
            y'.mesh.cornersAt (f.startsAt k) =
              some (if (e.startsAt k) = (f.startsAt k) then (q, p) else (p, q))) := by
  rw [build_of_ok h] at hg
  obtain rfl : b.options.surfaces n resolver = g := Except.ok.inj hg
  subst hsi htj
  obtain ⟨sweep, hsweep, hswept⟩ := BuildOptions.exists_sweep?_of_mem_roads h hs he
  obtain ⟨sweep', hsweep', hswept'⟩ := BuildOptions.exists_sweep?_of_mem_roads h ht hf
  have hmeet := BuildOptions.vertexAt_meets h hv hkind hincident he hf hd hd' hturn hsweep hsweep'
  refine ⟨sweep, sweep', hsweep, hsweep', hswept, hswept', hmeet, ?_⟩
  intro hprofile m m' x x' hx hx' hfaces
  have hstyle : Resolved.ofEdge resolver f = Resolved.ofEdge resolver e := by
    rw [Resolved.ofEdge_eq_ofProfile, ← hprofile, ← Resolved.ofEdge_eq_ofProfile]
  obtain ⟨p, q, hcorners, hcorners'⟩ := cornersAt_of_faces
    (BuildOptions.length_edge_sweep h he hsweep) (BuildOptions.length_edge_sweep h hf hsweep') hmeet
    (Resolved.ofEdge resolver e) hfaces
  refine ⟨_, _, p, q, ?_, ?_, hcorners, hcorners'⟩
  · rw [hswept.surfaces_eq, List.getElem?_map, hx, Option.map_some]
  · rw [hswept'.surfaces_eq, List.getElem?_map, hx', Option.map_some, hstyle]

end Builder

namespace Network

/-- A street that turns left. Both of its roads were drawn toward the corner. -/
noncomputable def turning : Network ℝ :=
  .ofParts "turning" 0.01 .default [(⟨0, 0⟩, 0), (⟨1, 0⟩, 1), (⟨1, 1⟩, 0)]
    [⟨0, 1, 0, "street", 0⟩, ⟨2, 1, 0, "street", 1⟩] []

theorem validate_turning : turning.validate = .ok () := by
  refine validate_ofParts (by norm_num) (by simp [JoinsNodes, ofParts]) ?_
  norm_num [Vec.dist_eq, Real.lt_sqrt]

theorem approach_turning_zero : turning.approach 1 0 = some ⟨-1, 0⟩ := by
  have hdirection : turning.approach 1 0 = directionOf ((⟨0, 0⟩ : Vec ℝ) - ⟨1, 0⟩) :=
    (validate_eq_ok_iff.mp validate_turning).1.approach_head (k := 0) rfl
  rw [hdirection]
  exact directionOf_of_norm (by ext <;> norm_num) (by norm_num [norm_eq])

theorem approach_turning_one : turning.approach 1 1 = some ⟨0, 1⟩ := by
  have hdirection : turning.approach 1 1 = directionOf ((⟨1, 1⟩ : Vec ℝ) - ⟨1, 0⟩) :=
    (validate_eq_ok_iff.mp validate_turning).1.approach_head (k := 1) rfl
  rw [hdirection]
  exact directionOf_of_norm (by ext <;> norm_num) (by norm_num [norm_eq])

theorem intersectionType_turning : turning.intersectionType 1 = some .pass := by
  have happroaches : turning.approaches 1 = [⟨-1, 0⟩, ⟨0, 1⟩] := by
    change [0, 1].filterMap (turning.approach 1) = _
    simp [approach_turning_zero, approach_turning_one]
  have hplain : ¬ turning.rules.FormsRoundabout (turning.approaches 1) :=
    fun hround => Bool.false_ne_true hround.1
  have hbend : turning.rules.isPass ⟨-1, 0⟩ ⟨0, 1⟩ = true := by
    rw [← Bool.not_eq_false, JunctionRules.isPass_eq_false_iff (by norm_num [norm_eq])
      (by norm_num [norm_eq]), not_lt]
    have hright : bend ⟨-1, 0⟩ ⟨0, 1⟩ = Real.pi / 2 := by
      norm_num [bend, dot]
      ring
    have hmost : turning.rules.passMaxBend = 120 := by
      change (120.0 : ℝ) = 120
      norm_num
    rw [hright, hmost]
    linarith [Real.pi_pos]
  rw [intersectionType_eq_classify rfl, JunctionRules.classify_of_not_formsRoundabout hplain,
    happroaches, JunctionRules.plainKind, if_pos hbend]

/-- No node of the street needs a patch. -/
theorem trim_turning (resolver : StyleResolver ℝ) {k : Nat} (hk : k < 3) :
    RoadSurface.trim (turning.patches resolver) k = 0 := by
  match k with
  | 0 => exact trim_patches_eq_zero resolver rfl (by rw [intersectionType_eq_none rfl le_rfl]; rfl)
  | 1 => exact trim_patches_eq_zero resolver rfl (by rw [intersectionType_turning]; rfl)
  | 2 => exact trim_patches_eq_zero resolver rfl (by rw [intersectionType_eq_none rfl le_rfl]; rfl)

theorem exists_mem_roads_turning (o : BuildOptions ℝ) (resolver : StyleResolver ℝ) {i : Nat}
    (hi : i < 2) : ∃ s ∈ (o.surfaces turning resolver).roads, s.segment = i := by
  match i with
  | 0 =>
      refine o.exists_mem_roads resolver rfl rfl rfl ?_
      rw [trim_turning resolver (by decide), trim_turning resolver (by decide)]
      change (1e-9 : ℝ) < (⟨0, 0⟩ : Vec ℝ).dist ⟨1, 0⟩ - max 0 0 - max 0 0
      norm_num [dist_eq]
  | 1 =>
      refine o.exists_mem_roads resolver rfl rfl rfl ?_
      rw [trim_turning resolver (by decide), trim_turning resolver (by decide)]
      change (1e-9 : ℝ) < (⟨1, 1⟩ : Vec ℝ).dist ⟨1, 0⟩ - max 0 0 - max 0 0
      norm_num [dist_eq]

theorem exists_mem_roads_of_build {b : Builder ℝ} {resolver : StyleResolver ℝ} {g : Geometry ℝ}
    (hg : (b.build turning resolver).2 = .ok g) {i : Nat} (hi : i < 2) :
    ∃ s ∈ g.roads, s.segment = i := by
  rw [Builder.build_of_ok validate_turning] at hg
  cases hg
  exact exists_mem_roads_turning b.options resolver hi

/-- The first road of the street leads straight east and is one long. -/
theorem sweep_turning {o : BuildOptions ℝ} {resolver : StyleResolver ℝ}
    {s : RoadSurface ℝ} {e : Edge ℝ} {v w : Node ℝ} {sweep : SweepPath ℝ}
    (h : s.IsBuilt o turning resolver e v w sweep) (hs : s.segment = 0) :
    e.tail = 0 ∧ e.head = 1 ∧ (w.position - v.position).unit = ⟨1, 0⟩ ∧
      sweep.path.length = 1 := by
  obtain ⟨_, _, hsweep⟩ := h.sweep_eq_straight
  have he := h.edge_eq
  rw [hs] at he
  cases he
  cases h.tail_eq
  cases h.head_eq
  refine ⟨rfl, rfl, ?_, ?_⟩
  · change ((⟨1, 0⟩ : Vec ℝ) - ⟨0, 0⟩).unit = ⟨1, 0⟩
    rw [unit_eq_self (by norm_num [norm_eq])]
    ext <;> norm_num
  · rw [trim_turning resolver (by decide), trim_turning resolver (by decide), max_self, zero_div]
      at hsweep
    rw [hsweep, SweepPath.straight, Polyline.length_pair, between_zero, between_zero]
    change (⟨0, 0⟩ : Vec ℝ).dist ⟨1, 0⟩ = 1
    norm_num [dist_eq]

end Network

/-- What is left of the one road is right of the other, since both end at the corner. -/
theorem Builder.build_meets_turning :
    ∃ g s t, ((new .default).build Network.turning fun _ => none).2 = .ok g ∧
      s ∈ g.roads ∧ t ∈ g.roads ∧ s.segment = 0 ∧ t.segment = 1 ∧
      ∃ sweep sweep', s.IsSwept (.ofProfile .default) sweep ∧
        t.IsSwept (.ofProfile .default) sweep' ∧ ∀ offset lift, ∃ p,
          sweep.vertexAt false offset lift = some p ∧
          sweep'.vertexAt false (-offset) lift = some p := by
  have hbuild : ((new .default).build Network.turning fun _ => none).2 =
      .ok (BuildOptions.surfaces .default Network.turning fun _ => none) := by
    rw [build_of_ok Network.validate_turning]
    rfl
  obtain ⟨s, hs, hsi⟩ := Network.exists_mem_roads_turning .default (fun _ => none) Nat.two_pos
  obtain ⟨t, ht, htj⟩ := Network.exists_mem_roads_turning .default (fun _ => none) Nat.one_lt_two
  have hturn : (1e-12 : ℝ) ≤ ((⟨-1, 0⟩ : Vec ℝ) - ⟨0, 1⟩).norm2 := by
    norm_num [norm2_eq]
  obtain ⟨sweep, sweep', _, _, hswept, hswept', hmeet, _⟩ := build_meets Network.validate_turning
    (k := 1) (i := 0) (j := 1) rfl Network.intersectionType_turning (.refl _) rfl rfl
    Network.approach_turning_zero Network.approach_turning_one hturn _ _ hbuild hs hsi ht htj
  exact ⟨_, s, t, hbuild, hs, ht, hsi, htj, sweep, sweep', hswept, hswept', hmeet⟩

end Roadworks
