import Roadworks.Proofs.Assembly.Connectivity
/-! # A turtle that never lifts its pen

The turtle and all its remembered states stand at the origin or at the end of a stroke. So every
stroke starts where an earlier one ended, and the roads hang together. -/

namespace Roadworks

variable {α : Type}

/-! ## Strokes that continue each other -/

/-- Every stroke starts at a known point, and its end is known from then on. -/
inductive IsTraced : List (Vec α) → List (Stroke α) → Prop where
  | nil {known : List (Vec α)} : IsTraced known []
  | cons {known : List (Vec α)} {s : Stroke α} {rest : List (Stroke α)} :
    s.start ∈ known → IsTraced (s.stop :: known) rest → IsTraced known (s :: rest)

/-- A property that strokes carry from their start to their end comes from the known points to all
ends of strokes. -/
theorem IsTraced.forall_ends {known : List (Vec α)} {strokes : List (Stroke α)}
    {P : Vec α → Prop} (h : IsTraced known strokes) (hknown : ∀ p ∈ known, P p)
    (hstroke : ∀ s ∈ strokes, P s.start → P s.stop) :
    ∀ s ∈ strokes, P s.start ∧ P s.stop := by
  induction h with
  | nil => simp
  | @cons known s rest hstart _ ih =>
      have hs : P s.start := hknown s.start hstart
      have hs' : P s.stop := hstroke s List.mem_cons_self hs
      have hrest := ih (List.forall_mem_cons.mpr ⟨hs', hknown⟩)
        fun t ht => hstroke t (List.mem_cons_of_mem s ht)
      exact List.forall_mem_cons.mpr ⟨⟨hs, hs'⟩, hrest⟩

/-- The turtle and all its remembered states stand at known points. -/
structure Walk.IsAmong (w : Walk α) (known : List (Vec α)) : Prop where
  turtle : w.turtle.position ∈ known
  stack : ∀ t ∈ w.stack, t.position ∈ known

variable [Scalar α]

namespace Interpreter

/-- An operation that does not lift the pen leads to known points, one of which is the end of what
it draws. -/
theorem isAmong_advance {i : Interpreter α} {w : Walk α} {known : List (Vec α)} {op : TurtleOp α}
    (h : w.IsAmong known) (hop : op ≠ .move) :
    match i.stroke? w op with
    | none => (i.advance w op).IsAmong known
    | some s => s.start ∈ known ∧ (i.advance w op).IsAmong (s.stop :: known) := by
  cases op with
  | draw =>
      refine ⟨h.turtle, List.mem_cons_self, fun t ht => ?_⟩
      exact List.mem_cons_of_mem _ (h.stack t ht)
  | move => exact absurd rfl hop
  | turn factor => exact ⟨h.turtle, h.stack⟩
  | turnAround => exact ⟨h.turtle, h.stack⟩
  | push =>
      simp only [stroke?, advance]
      split
      · exact ⟨h.turtle, List.forall_mem_cons.mpr ⟨h.turtle, h.stack⟩⟩
      · exact ⟨h.turtle, h.stack⟩
  | pop =>
      simp only [stroke?, advance]
      split
      · exact ⟨h.turtle, h.stack⟩
      · split
        · exact h
        · next t rest hstack =>
            have hrest := h.stack
            rw [hstack, List.forall_mem_cons] at hrest
            exact ⟨hrest.1, hrest.2⟩
  | setStyle style => exact ⟨h.turtle, h.stack⟩
  | ignore => exact h

theorem isTraced_strokes {i : Interpreter α} {w : Walk α} {known : List (Vec α)} {word : Word}
    (h : w.IsAmong known) (hword : ∀ c ∈ word, i.op c ≠ .move) :
    IsTraced known (i.strokes w word) := by
  induction word generalizing w known with
  | nil => exact .nil
  | cons c word ih =>
      obtain ⟨hc, hrest⟩ := List.forall_mem_cons.mp hword
      have hstep := i.isAmong_advance h hc
      rw [strokes]
      cases hstroke : i.stroke? w (i.op c) with
      | none =>
          rw [hstroke] at hstep
          exact ih hstep hrest
      | some s =>
          rw [hstroke] at hstep
          exact .cons hstep.1 (ih hstep.2 hrest)

/-- All that is drawn hangs together with the origin. -/
theorem isTraced_interpret {i : Interpreter α} {word : Word}
    (hword : ∀ c ∈ word, i.op c ≠ .move) : IsTraced [.zero] (i.strokes i.begin word) :=
  isTraced_strokes ⟨List.mem_singleton.mpr rfl, fun _ ht => absurd ht List.not_mem_nil⟩ hword

theorem getElem?_interpret (i : Interpreter α) (word : Word) (k : Nat) :
    (i.interpret word)[k]? = (i.strokes i.begin word)[k]?.map fun s =>
      ⟨k, s.start, s.stop, s.heading, s.styleClass⟩ := by
  rw [interpret, List.getElem?_map, List.getElem?_zipIdx, Option.map_map, Nat.zero_add]
  rfl

theorem mem_strokes_of_mem_interpret {i : Interpreter α} {word : Word} {s : RoadSegment α}
    (hs : s ∈ i.interpret word) :
    ∃ t ∈ i.strokes i.begin word, t.start = s.start ∧ t.stop = s.stop := by
  obtain ⟨k, hk⟩ := List.mem_iff_getElem?.mp hs
  rw [getElem?_interpret, Option.map_eq_some_iff] at hk
  obtain ⟨t, ht, rfl⟩ := hk
  exact ⟨t, List.mem_of_getElem? ht, rfl, rfl⟩

/-- The first segment starts at the origin, since nothing else is known then. -/
theorem start_eq_zero {i : Interpreter α} {word : Word} {s : RoadSegment α}
    (hword : ∀ c ∈ word, i.op c ≠ .move) (hs : (i.interpret word)[0]? = some s) :
    s.start = .zero := by
  have htraced := isTraced_interpret hword
  rw [getElem?_interpret] at hs
  cases hstrokes : i.strokes i.begin word with
  | nil => simp [hstrokes] at hs
  | cons t rest =>
      rw [hstrokes] at htraced hs
      cases htraced with
      | cons hstart _ =>
          rw [List.getElem?_cons_zero, Option.map_some, Option.some.injEq] at hs
          rw [← hs]
          exact List.mem_singleton.mp hstart

end Interpreter

namespace AssemblyOptions

/-! ## Clusters along the strokes -/

variable {o : AssemblyOptions α} {segments : List (RoadSegment α)}

/-- All ends at the point are in clusters that segments link with the given one. -/
def IsAnchored (o : AssemblyOptions α) (segments : List (RoadSegment α)) (c : Nat) (p : Vec α) :
    Prop :=
  ∀ k, (segmentEnds segments)[k]? = some p →
    o.IsLinked segments c ((o.clusters segments).assignment.getD k 0)

/-- It is enough to look at one end, since equal ends share their cluster. -/
theorem isAnchored_of_isLinked {c k : Nat} {p : Vec α} (hk : (segmentEnds segments)[k]? = some p)
    (hself : p.dist p ≤ o.mergeTolerance)
    (h : o.IsLinked segments c ((o.clusters segments).assignment.getD k 0)) :
    o.IsAnchored segments c p := by
  intro j hj
  have hcluster : (o.clusters segments).assignment.getD j 0 =
      (o.clusters segments).assignment.getD k 0 :=
    Clustering.getD_assignment_eq_of_dist_self_le hj hk hself
  rwa [hcluster]

theorem isLinked_tailOf_headOf {k : Nat} {s : RoadSegment α} (hs : segments[k]? = some s) :
    o.IsLinked segments ((o.clusters segments).tailOf k) ((o.clusters segments).headOf k) := by
  have hplaced := o.getElem?_placed segments k
  rw [hs, Option.map_some] at hplaced
  exact .single ⟨_, List.mem_of_getElem? hplaced, rfl⟩

/-- A segment hands the link on from its start to its end, even if it is dropped. -/
theorem IsAnchored.stop {c k : Nat} {s : RoadSegment α} (hs : segments[k]? = some s)
    (hself : s.stop.dist s.stop ≤ o.mergeTolerance) (h : o.IsAnchored segments c s.start) :
    o.IsAnchored segments c s.stop := by
  obtain ⟨hstart, hstop⟩ := getElem?_segmentEnds hs
  exact isAnchored_of_isLinked hstop hself ((h _ hstart).trans (isLinked_tailOf_headOf hs))

/-- Where all ends are anchored, every cluster with a node is linked with the anchor. -/
theorem isLinked_of_mem_used {c d : Nat}
    (h : ∀ s ∈ segments, o.IsAnchored segments c s.start ∧ o.IsAnchored segments c s.stop)
    (hd : d ∈ o.used segments) : o.IsLinked segments c d := by
  obtain ⟨p, hp, hmem⟩ := mem_used_iff.mp hd
  obtain ⟨k, hk⟩ := List.mem_iff_getElem?.mp (mem_placed_of_mem_kept hp)
  rw [getElem?_placed, Option.map_eq_some_iff] at hk
  obtain ⟨s, hs, rfl⟩ := hk
  obtain ⟨hstart, hstop⟩ := getElem?_segmentEnds hs
  obtain ⟨htail, hhead⟩ := h s (List.mem_of_getElem? hs)
  rcases Sym2.mem_iff.mp hmem with rfl | rfl
  · exact htail _ hstart
  · exact hhead _ hstop

/-- Clusters that are all linked with one of them become one component. -/
theorem length_components_network_le_one {c : Nat}
    (h : ∀ d ∈ o.used segments, o.IsLinked segments c d) :
    (o.network segments).components.length ≤ 1 := by
  apply Network.length_components_le_one
  intro i hi j hj
  rw [length_nodes_network] at hi hj
  have hnodup := (o.pairwise_used segments).nodup
  have hlinked : o.IsLinked segments (o.used segments)[i] (o.used segments)[j] :=
    (symm (h _ (List.getElem_mem hi))).trans (h _ (List.getElem_mem hj))
  have hreach := isReachable_of_isLinked hlinked
  rwa [hnodup.idxOf_getElem i hi, hnodup.idxOf_getElem j hj] at hreach

end AssemblyOptions

/-! ## One road system -/

open AssemblyOptions

/-- All ends at the origin are anchored where the turtle started. -/
theorem isAnchored_zero {i : Interpreter α} {word : Word} {o : AssemblyOptions α}
    (hword : ∀ c ∈ word, i.op c ≠ .move)
    (hself : ∀ p ∈ segmentEnds (i.interpret word), p.dist p ≤ o.mergeTolerance) :
    o.IsAnchored (i.interpret word) ((o.clusters (i.interpret word)).tailOf 0) .zero := by
  cases hs : (i.interpret word)[0]? with
  | none =>
      have hnil : i.interpret word = [] := by simpa using hs
      intro k hk
      simp [segmentEnds, hnil] at hk
  | some s =>
      have hfirst := (getElem?_segmentEnds hs).1
      rw [Interpreter.start_eq_zero hword hs] at hfirst
      exact isAnchored_of_isLinked hfirst (hself _ (List.mem_of_getElem? hfirst)) .refl

/-- The ends of all segments are anchored where the turtle started. -/
theorem isAnchored_interpret {i : Interpreter α} {word : Word} {o : AssemblyOptions α}
    (hword : ∀ c ∈ word, i.op c ≠ .move)
    (hself : ∀ p ∈ segmentEnds (i.interpret word), p.dist p ≤ o.mergeTolerance) :
    ∀ s ∈ i.interpret word,
      o.IsAnchored (i.interpret word) ((o.clusters (i.interpret word)).tailOf 0) s.start ∧
      o.IsAnchored (i.interpret word) ((o.clusters (i.interpret word)).tailOf 0) s.stop := by
  have hall := (Interpreter.isTraced_interpret hword).forall_ends
    (fun p hp => List.mem_singleton.mp hp ▸ isAnchored_zero hword hself) fun t ht hstart => by
      obtain ⟨k, hk⟩ := List.mem_iff_getElem?.mp ht
      have hsegment := i.getElem?_interpret word k
      rw [hk, Option.map_some] at hsegment
      have hstop := List.mem_of_getElem? (getElem?_segmentEnds hsegment).2
      exact IsAnchored.stop hsegment (hself _ hstop) hstart
  intro s hs
  obtain ⟨t, ht, hstart, hstop⟩ := Interpreter.mem_strokes_of_mem_interpret hs
  rw [← hstart, ← hstop]
  exact hall t ht

/-- A turtle that never lifts its pen draws one connected system of roads, whatever it remembers,
forgets and returns to. -/
theorem assemble_interpret_connected {i : Interpreter α} {word : Word} {o : AssemblyOptions α}
    (hword : ∀ c ∈ word, i.op c ≠ .move) (hvalid : o.IsValid)
    (hself : ∀ p ∈ segmentEnds (i.interpret word), p.dist p ≤ o.mergeTolerance) :
    ∃ n, o.assemble (i.interpret word) = .ok n ∧ n.summary.components ≤ 1 := by
  refine ⟨_, assemble_eq_ok_iff.mpr ⟨hvalid, rfl⟩, ?_⟩
  exact length_components_network_le_one fun d hd =>
    isLinked_of_mem_used (isAnchored_interpret hword hself) hd

/-- The standard turtle with room for one state. -/
def forgetful : Interpreter Float := ⟨Interpreter.standardOp, 0.5, 10.0, "street", 1⟩

/-- A push that finds no room, the pop that goes with it, a pop with nothing to return to, and a road
that is drawn twice. -/
theorem assemble_forgetful_connected :
    ∃ n, AssemblyOptions.assemble .default (forgetful.interpret "F[F[F]F]]F".toList) = .ok n ∧
      n.summary.components ≤ 1 ∧ n.nodes.length = 5 ∧ n.dropped.length = 1 := by
  have hword : ∀ c ∈ "F[F[F]F]]F".toList, forgetful.op c ≠ .move := by
    simp [forgetful, Interpreter.standardOp]
  obtain ⟨n, hn, hcomponents⟩ :=
    assemble_interpret_connected hword AssemblyOptions.isValid_default (by decide +kernel)
  obtain ⟨_, rfl⟩ := AssemblyOptions.assemble_eq_ok_iff.mp hn
  exact ⟨_, hn, hcomponents, by decide +kernel, by decide +kernel⟩

end Roadworks
