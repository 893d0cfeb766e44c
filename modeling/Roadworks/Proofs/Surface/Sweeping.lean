import Roadworks.Proofs.Surface.Accounting
/-! # What the surface of a road is swept along

Everything that is built for a road is swept along one path, which leads between the patches over
its ends and is mitred where the road goes on. -/

namespace Roadworks

variable {α : Type}

/-! ## Ends of edges and bands -/

/-- The road was drawn from the node, and not toward it. -/
def Edge.startsAt (e : Edge α) (node : Nat) : Bool := e.tail == node

variable [Scalar α]

/-- The vertex that an edge begins or ends with. -/
def SweepPath.vertexAt (sweep : SweepPath α) (first : Bool) (offset lift : α) :
    Option (Vertex α) :=
  if first then (sweep.edge offset lift).head? else (sweep.edge offset lift).getLast?

/-- The left and the right corner that a band of one piece begins or ends with. -/
def Mesh.cornersAt (m : Mesh α) (first : Bool) : Option (Vertex α × Vertex α) :=
  match m.positions with
  | l :: r :: r' :: l' :: _ => some (if first then (l, r) else (l', r'))
  | _ => none

/-- How high a band lies. -/
def Resolved.liftOf (r : Resolved α) (b : Band α) : α :=
  if b.kind.isRaised then r.curbHeight else 0.0

theorem Resolved.ofEdge_eq_ofProfile (resolver : StyleResolver α) (e : Edge α) :
    ofEdge resolver e = ofProfile (ofEdge resolver e).profile := by
  unfold ofEdge
  split
  · rfl
  · split <;> rfl

/-- What is built for a road is swept along a path. -/
structure RoadSurface.IsSwept (s : RoadSurface α) (r : Resolved α) (sweep : SweepPath α) :
    Prop where
  centreline_eq : s.centreline = sweep.edge 0.0 0.0
  surfaces_eq : s.surfaces = r.crossSection.bands.map (bandSurface sweep r.curbHeight)
  curbLines_eq : s.curbLines = (r.crossSection.bands.filter (·.kind.isRaised)).map fun b =>
    sweep.edge b.outer r.curbHeight

/-- A band ends where its edges end. -/
theorem cornersAt_bandSurface {sweep : SweepPath α}
    (hlength : ∀ offset lift, (sweep.edge offset lift).length = 2) {r : Resolved α} {b : Band α}
    {first : Bool} {p q : Vertex α} (hp : sweep.vertexAt first b.left (r.liftOf b) = some p)
    (hq : sweep.vertexAt first b.right (r.liftOf b) = some q) :
    (RoadSurface.bandSurface sweep r.curbHeight b).mesh.cornersAt first = some (p, q) := by
  obtain ⟨l, l', hleft⟩ := List.length_eq_two.mp (hlength b.left (r.liftOf b))
  obtain ⟨x, x', hright⟩ := List.length_eq_two.mp (hlength b.right (r.liftOf b))
  have hribbon : (sweep.ribbon b (r.liftOf b)).positions = [l, x, x', l'] := by
    rw [SweepPath.ribbon, hleft, hright]
    rfl
  have hfour : ∃ rest, (RoadSurface.bandSurface sweep r.curbHeight b).mesh.positions =
      l :: x :: x' :: l' :: rest := by
    rw [RoadSurface.bandSurface, ← Resolved.liftOf]
    dsimp only
    split
    · rw [Mesh.append, hribbon]
      exact ⟨_, rfl⟩
    · exact ⟨_, hribbon⟩
  obtain ⟨rest, hfour⟩ := hfour
  rw [SweepPath.vertexAt, hleft] at hp
  rw [SweepPath.vertexAt, hright] at hq
  rw [Mesh.cornersAt, hfour]
  cases first with
  | true =>
      cases hp
      cases hq
      rfl
  | false =>
      cases hp
      cases hq
      rfl

/-! ## Paths of roads -/

namespace BuildOptions

/-- What road number `i` is swept along, if its patches leave anything of it. -/
def sweep? (o : BuildOptions α) (n : Network α) (resolver : StyleResolver α) (i : Nat) :
    Option (SweepPath α) := do
  let e ← n.edges[i]?
  let v ← n.nodes[e.tail]?
  let w ← n.nodes[e.head]?
  let path ← (Polyline.line v.position w.position).trimmed
    (RoadSurface.trim (n.patches resolver) e.tail) (RoadSurface.trim (n.patches resolver) e.head)
  let arrival := (RoadSurface.passJoin n e.tail i).map fun d => ⟨-d.x, -d.y⟩
  let frames := path.frames arrival (RoadSurface.passJoin n e.head i) o.miterLimit
  return ⟨path, frames, path.points.map
    (RoadSurface.elevationAt v.position w.position v.elevation w.elevation)⟩

variable {o : BuildOptions α} {n : Network α} {resolver : StyleResolver α} {i : Nat} {e : Edge α}
  {v w : Node α}

/-- A road that can be swept has the surface that is swept along its path, and one that cannot is
reported as too short. -/
theorem outcome?_eq_sweep? (o : BuildOptions α) (resolver : StyleResolver α)
    (he : n.edges[i]? = some e) (hv : n.nodes[e.tail]? = some v)
    (hw : n.nodes[e.head]? = some w) :
    o.outcome? n resolver i = some (match o.sweep? n resolver i with
      | none => .error (.segmentTooShort i (v.position.dist w.position))
      | some sweep => .ok (.ofPath o i e.styleClass (Resolved.ofEdge resolver e) sweep
          (RoadSurface.elevationAt v.position w.position v.elevation w.elevation))) := by
  have hstyle : (n.styles resolver)[i]? = some (Resolved.ofEdge resolver e) := by
    rw [Network.getElem?_styles, he, Option.map_some]
  simp only [outcome?, sweep?, RoadSurface.ofEdge?, he, hv, hw, hstyle, bind, Option.bind_some]
  cases (Polyline.line v.position w.position).trimmed
    (RoadSurface.trim (n.patches resolver) e.tail)
    (RoadSurface.trim (n.patches resolver) e.head) with
  | none => rfl
  | some path => rfl

end BuildOptions

/-! ## Roads that were built -/

/-- A road that was built between two nodes, and what it was swept along. -/
structure RoadSurface.IsBuilt (s : RoadSurface α) (o : BuildOptions α) (n : Network α)
    (resolver : StyleResolver α) (e : Edge α) (v w : Node α) (sweep : SweepPath α) : Prop where
  edge_eq : n.edges[s.segment]? = some e
  tail_eq : n.nodes[e.tail]? = some v
  head_eq : n.nodes[e.head]? = some w
  sweep_eq : o.sweep? n resolver s.segment = some sweep
  surface_eq : s = ofPath o s.segment e.styleClass (.ofEdge resolver e) sweep
    (elevationAt v.position w.position v.elevation w.elevation)

theorem RoadSurface.IsBuilt.isSwept {s : RoadSurface α} {o : BuildOptions α} {n : Network α}
    {resolver : StyleResolver α} {e : Edge α} {v w : Node α} {sweep : SweepPath α}
    (h : s.IsBuilt o n resolver e v w sweep) : s.IsSwept (.ofEdge resolver e) sweep := by
  rw [h.surface_eq]
  exact ⟨rfl, rfl, rfl⟩

theorem BuildOptions.exists_isBuilt_of_mem_roads {o : BuildOptions α} {n : Network α}
    {resolver : StyleResolver α} {s : RoadSurface α} (h : n.validate = .ok ())
    (hs : s ∈ (o.surfaces n resolver).roads) :
    ∃ e v w sweep, s.IsBuilt o n resolver e v w sweep := by
  have hmade := (o.isListing_roads n resolver).mem_iff.mp hs
  obtain ⟨e, he⟩ : ∃ e, n.edges[s.segment]? = some e := by
    rw [outcome?, Option.bind_assoc] at hmade
    obtain ⟨e, he, _⟩ := Option.bind_eq_some_iff.mp hmade
    exact ⟨e, he⟩
  obtain ⟨htail, hhead, _⟩ := (Network.validate_eq_ok_iff.mp h).1 e (List.mem_of_getElem? he)
  have hv := List.getElem?_eq_getElem htail
  have hw := List.getElem?_eq_getElem hhead
  rw [o.outcome?_eq_sweep? resolver he hv hw] at hmade
  cases hsweep : o.sweep? n resolver s.segment with
  | none =>
      rw [hsweep] at hmade
      cases hmade
  | some sweep =>
      rw [hsweep] at hmade
      exact ⟨e, _, _, sweep, he, hv, hw, hsweep, (Option.some.inj hmade).symm⟩

/-- A road of a sound network is built between the nodes that its edge joins. -/
theorem Builder.exists_isBuilt (b : Builder α) {n : Network α} (resolver : StyleResolver α)
    (h : n.validate = .ok ()) :
    ∃ g, (b.build n resolver).2 = .ok g ∧
      ∀ s ∈ g.roads, ∃ e v w sweep, s.IsBuilt b.options n resolver e v w sweep :=
  ⟨b.options.surfaces n resolver, by rw [build_of_ok h],
    fun _ hs => BuildOptions.exists_isBuilt_of_mem_roads h hs⟩

theorem BuildOptions.exists_sweep?_of_mem_roads {o : BuildOptions α} {n : Network α}
    {resolver : StyleResolver α} {s : RoadSurface α} {e : Edge α} (h : n.validate = .ok ())
    (hs : s ∈ (o.surfaces n resolver).roads) (he : n.edges[s.segment]? = some e) :
    ∃ sweep, o.sweep? n resolver s.segment = some sweep ∧
      s.IsSwept (Resolved.ofEdge resolver e) sweep := by
  obtain ⟨e', v, w, sweep, hb⟩ := exists_isBuilt_of_mem_roads h hs
  cases he.symm.trans hb.edge_eq
  exact ⟨sweep, hb.sweep_eq, hb.isSwept⟩

end Roadworks
