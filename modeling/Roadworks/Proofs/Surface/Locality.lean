import Roadworks.Proofs.Network.Styles
import Roadworks.Proofs.Surface.Accounting
/-! # Geometry is local

The surface over a node is made from the styles of the roads that end there. A road is cut back by
the surfaces over its ends, so it is made from the styles of all roads that end where it ends. -/

namespace Roadworks

variable {α : Type}

/-- The network with another style on road number `k`. -/
def Network.restyle (n : Network α) (k : Nat) (styleClass : String) : Network α :=
  { n with edges := n.edges.modify k fun e => { e with styleClass := styleClass } }

/-- Two resolvers find the same styles for all roads that end at a node. -/
def Network.AgreeAt (n : Network α) (r r' : StyleResolver α) (node : Nat) : Prop :=
  ∀ e ∈ n.edges, e.touches node → r e.styleClass = r' e.styleClass

theorem Network.getElem?_edges_restyle (n : Network α) (k : Nat) (styleClass : String) (i : Nat) :
    (n.restyle k styleClass).edges[i]? =
      n.edges[i]?.map fun e => if k = i then { e with styleClass := styleClass } else e := by
  rw [restyle, List.getElem?_modify]
  split
  · rfl
  · simp

theorem Network.unstyled_restyle (n : Network α) (k : Nat) (styleClass : String) :
    (n.restyle k styleClass).unstyled = n.unstyled := by
  have hedges : (n.restyle k styleClass).edges.map Edge.unstyled = n.edges.map Edge.unstyled := by
    apply List.ext_getElem?
    intro i
    rw [List.getElem?_map, List.getElem?_map, getElem?_edges_restyle, Option.map_map]
    by_cases hi : k = i
    · simp only [hi, if_true]
      rfl
    · simp only [hi, if_false]
      rfl
  unfold unstyled
  rw [hedges]
  rfl

variable [Scalar α]

/-- The same styles are in effect on all roads that end at a node, in two networks that differ in
styles only. -/
def Network.SameStylesAt (n n' : Network α) (r r' : StyleResolver α) (node : Nat) : Prop :=
  ∀ (k : Nat) (e : Edge α), n.edges[k]? = some e → e.touches node →
    (n.styles r)[k]? = (n'.styles r')[k]?

namespace Network

variable {n n' : Network α} {r r' : StyleResolver α} {node : Nat}

theorem AgreeAt.sameStylesAt (h : n.AgreeAt r r' node) : n.SameStylesAt n r r' node := by
  intro k e he htouches
  rw [getElem?_styles, getElem?_styles, he, Option.map_some, Option.map_some, Resolved.ofEdge,
    Resolved.ofEdge, h e (List.mem_of_getElem? he) htouches]

/-- Another style on a road changes nothing at the nodes where it does not end. -/
theorem sameStylesAt_restyle {k : Nat} {e : Edge α} (he : n.edges[k]? = some e)
    (htouches : ¬ e.touches node) (styleClass : String) :
    n.SameStylesAt (n.restyle k styleClass) r r node := by
  intro j f hf hnode
  have hne : k ≠ j := by
    intro hkj
    rw [hkj, hf] at he
    cases he
    exact htouches hnode
  simp [getElem?_styles, getElem?_edges_restyle, hne]

variable (hsame : n.unstyled = n'.unstyled)

include hsame

/-- A patch is as wide as the roads that end at its node make it. -/
theorem ofNode_eq (hvalid : n.validate = .ok ()) {v : Node α} (hv : n.nodes[node]? = some v)
    (h : n.SameStylesAt n' r r' node) :
    SizedPatch.ofNode n (n.styles r) v node = SizedPatch.ofNode n' (n'.styles r') v node := by
  have hwidest : SizedPatch.widest (n.styles r) v.incident =
      SizedPatch.widest (n'.styles r') v.incident := by
    unfold SizedPatch.widest
    congr 1
    refine List.filterMap_congr fun k hk => ?_
    obtain ⟨e, he, htouches⟩ := (mem_incident_iff hvalid hv).mp hk
    exact h k e he htouches
  unfold SizedPatch.ofNode
  rw [intersectionType_eq_of_unstyled_eq hsame, rules_eq_of_unstyled_eq hsame, hwidest]

theorem trim_eq (hvalid : n.validate = .ok ()) (h : n.SameStylesAt n' r r' node) :
    RoadSurface.trim (n.patches r) node = RoadSurface.trim (n'.patches r') node := by
  rw [trim_patches, trim_patches, patch?, patch?, ← nodes_eq_of_unstyled_eq hsame]
  cases hv : n.nodes[node]? with
  | none => rfl
  | some v => rw [Option.bind_some, Option.bind_some, ofNode_eq hsame hvalid hv h]

theorem passJoin_eq_of_unstyled_eq : RoadSurface.passJoin n = RoadSurface.passJoin n' := by
  funext node edge
  unfold RoadSurface.passJoin
  rw [intersectionType_eq_of_unstyled_eq hsame, approach_eq_of_unstyled_eq hsame,
    nodes_eq_of_unstyled_eq hsame]

end Network

namespace BuildOptions

variable {n n' : Network α} {r r' : StyleResolver α} (hsame : n.unstyled = n'.unstyled)

include hsame

/-- What is built for a road depends on the styles of the roads that end where it ends. -/
theorem outcome?_eq (o : BuildOptions α) (hvalid : n.validate = .ok ()) {i : Nat} {e : Edge α}
    (he : n.edges[i]? = some e) (he' : n'.edges[i]? = some e)
    (htail : n.SameStylesAt n' r r' e.tail) (hhead : n.SameStylesAt n' r r' e.head) :
    o.outcome? n r i = o.outcome? n' r' i := by
  -- The road ends at its own tail, so its style is among those that agree.
  have htouches : e.touches e.tail = true := by simp [Edge.touches]
  rw [outcome?, outcome?, he, he', Option.bind_some, Option.bind_some]
  unfold RoadSurface.ofEdge?
  rw [Network.nodes_eq_of_unstyled_eq hsame, Network.trim_eq hsame hvalid htail,
    Network.trim_eq hsame hvalid hhead, Network.passJoin_eq_of_unstyled_eq hsame,
    htail i e he htouches]

/-- What is built over a node depends on the styles of the roads that end there. -/
theorem junction?_eq (o : BuildOptions α) (hvalid : n.validate = .ok ()) {node : Nat}
    (h : n.SameStylesAt n' r r' node) : o.junction? n r node = o.junction? n' r' node := by
  rw [junction?, junction?, ← Network.nodes_eq_of_unstyled_eq hsame]
  cases hv : n.nodes[node]? with
  | none => rfl
  | some v => rw [Option.bind_some, Option.bind_some, Network.ofNode_eq hsame hvalid hv h]

theorem treatment_eq (o : BuildOptions α) (hvalid : n.validate = .ok ()) {i : Nat} {e : Edge α}
    (he : n.edges[i]? = some e) (he' : n'.edges[i]? = some e)
    (htail : n.SameStylesAt n' r r' e.tail) (hhead : n.SameStylesAt n' r r' e.head) :
    (o.surfaces n r).treatment i = (o.surfaces n' r').treatment i := by
  rw [treatment_surfaces, treatment_surfaces, o.outcome?_eq hsame hvalid he he' htail hhead]

theorem junctionsAt_eq (o : BuildOptions α) (hvalid : n.validate = .ok ()) {node : Nat}
    (h : n.SameStylesAt n' r r' node) :
    (o.surfaces n r).junctionsAt node = (o.surfaces n' r').junctionsAt node := by
  rw [Geometry.junctionsAt, Geometry.junctionsAt, (o.isListing_junctions n r).filter_eq,
    (o.isListing_junctions n' r').filter_eq, o.junction?_eq hsame hvalid h]

end BuildOptions

/-- Resolvers that find the same styles where a road ends make the same surface of it, or find it
too short by the same length, and make the same surface over a node where they find the same styles.
So another style on one road leaves alone the roads and nodes that it does not meet. -/
theorem Builder.build_local {n : Network α} (hvalid : n.validate = .ok ()) (b : Builder α)
    (r r' : StyleResolver α) :
    ∃ g g', (b.build n r).2 = .ok g ∧ (b.build n r').2 = .ok g' ∧
      (∀ i e, n.edges[i]? = some e → n.AgreeAt r r' e.tail → n.AgreeAt r r' e.head →
        g.treatment i = g'.treatment i ∧
          ((∃ s, g.treatment i = ([s], [])) ∨
            ∃ length, g.treatment i = ([], [.segmentTooShort i length]))) ∧
      (∀ node, n.AgreeAt r r' node → g.junctionsAt node = g'.junctionsAt node) ∧
      ∀ k e, n.edges[k]? = some e → ∀ styleClass, ∃ g'',
        (b.build (n.restyle k styleClass) r).2 = .ok g'' ∧
        (∀ i e', n.edges[i]? = some e' → ¬ e.touches e'.tail → ¬ e.touches e'.head →
          g.treatment i = g''.treatment i) ∧
        ∀ node, ¬ e.touches node → g.junctionsAt node = g''.junctionsAt node := by
  refine ⟨b.options.surfaces n r, b.options.surfaces n r', ?_, ?_, ?_, ?_, ?_⟩
  · rw [build_of_ok hvalid]
  · rw [build_of_ok hvalid]
  · intro i e he htail hhead
    refine ⟨b.options.treatment_eq rfl hvalid he he htail.sameStylesAt hhead.sameStylesAt, ?_⟩
    obtain ⟨s, hs, _⟩ | hshort := b.options.treatment_surfaces_cases r hvalid he
    · exact .inl ⟨s, hs⟩
    · exact .inr hshort
  · intro node hagree
    exact b.options.junctionsAt_eq rfl hvalid hagree.sameStylesAt
  · intro k e he styleClass
    have hsame := (n.unstyled_restyle k styleClass).symm
    have hvalid' := (Network.validate_eq_of_unstyled_eq hsame).symm.trans hvalid
    refine ⟨b.options.surfaces (n.restyle k styleClass) r, by rw [build_of_ok hvalid'], ?_, ?_⟩
    · intro i e' he' htail hhead
      have hne : k ≠ i := by
        intro hki
        rw [hki, he'] at he
        cases he
        simp [Edge.touches] at htail
      have hother : (n.restyle k styleClass).edges[i]? = some e' := by
        simp [Network.getElem?_edges_restyle, he', hne]
      exact b.options.treatment_eq hsame hvalid he' hother
        (Network.sameStylesAt_restyle he htail _) (Network.sameStylesAt_restyle he hhead _)
    · intro node hnode
      exact b.options.junctionsAt_eq hsame hvalid (Network.sameStylesAt_restyle he hnode _)

/-- Three roads in a row, each of a style of its own. -/
def row : Network Float :=
  .ofParts "row" 0.01 .default
    [(⟨0.0, 0.0⟩, 0.0), (⟨10.0, 0.0⟩, 0.0), (⟨20.0, 0.0⟩, 0.0), (⟨30.0, 0.0⟩, 0.0)]
    [⟨0, 1, 0.0, "street", 0⟩, ⟨1, 2, 0.0, "avenue", 1⟩, ⟨2, 3, 0.0, "lane", 2⟩] []

theorem validate_row : row.validate = .ok () := by
  refine Network.IsCoherent.validate_eq_ok
    ⟨?_, Network.listsRoads_ofParts _ _ _ _ _ _, by decide +kernel⟩
  simp [Network.JoinsNodes, row, Network.ofParts]

/-- Highways for lanes. -/
def highways : StyleResolver Float := fun c =>
  if c = "lane" then some StyleCatalog.highway else none

theorem Builder.build_local_row :
    ∃ g g' g'', ((new .default).build row fun _ => none).2 = .ok g ∧
      ((new .default).build row highways).2 = .ok g' ∧
      ((new .default).build (row.restyle 2 "highway") fun _ => none).2 = .ok g'' ∧
      g.treatment 0 = g'.treatment 0 ∧ g.treatment 0 = g''.treatment 0 ∧
      g.junctionsAt 1 = g'.junctionsAt 1 ∧ g.junctionsAt 1 = g''.junctionsAt 1 := by
  have htail : row.AgreeAt (fun _ => none) highways 0 := by
    simp [Network.AgreeAt, row, Network.ofParts, Edge.touches, highways]
  have hhead : row.AgreeAt (fun _ => none) highways 1 := by
    simp [Network.AgreeAt, row, Network.ofParts, Edge.touches, highways]
  obtain ⟨g, g', hg, hg', hroads, hjunctions, hrestyled⟩ :=
    build_local validate_row (new .default) (fun _ => none) highways
  obtain ⟨g'', hg'', hroads', hjunctions'⟩ := hrestyled 2 _ rfl "highway"
  exact ⟨g, g', g'', hg, hg', hg'', (hroads 0 _ rfl htail hhead).1,
    hroads' 0 _ rfl (by decide) (by decide), hjunctions 1 hhead, hjunctions' 1 (by decide)⟩

end Roadworks
