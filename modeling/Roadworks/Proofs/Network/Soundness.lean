import Mathlib.Data.Sym.Sym2
import Roadworks.Proofs.Cluster.Nearness
import Roadworks.Proofs.Network.Parts
/-! # Sound networks

The check of a network accepts exactly the networks whose roads join two of their nodes, whose
nodes list their roads, and whose nodes are apart. -/

namespace Roadworks

variable {α : Type}

/-- The two nodes of a road, in no order. -/
def Edge.ends (e : Edge α) : Sym2 Nat := s(e.tail, e.head)

theorem Edge.touches_iff {e : Edge α} {i : Nat} : e.touches i ↔ e.tail = i ∨ e.head = i := by
  simp [touches]

/-! ## Computations that succeed -/

theorem bind_eq_ok_iff {ε β γ : Type} {x : Except ε β} {f : β → Except ε γ} {c : γ} :
    x >>= f = .ok c ↔ ∃ b, x = .ok b ∧ f b = .ok c := by
  cases x with
  | error e => simp [bind, Except.bind]
  | ok b => simp [bind, Except.bind]

theorem mapError_eq_ok_iff {ε ε' β : Type} {x : Except ε β} {f : ε → ε'} {b : β} :
    x.mapError f = .ok b ↔ x = .ok b := by
  cases x with
  | error e => simp [Except.mapError]
  | ok b => simp [Except.mapError]

theorem forM_eq_ok_iff {ε β : Type} {l : List β} {f : β → Except ε PUnit} :
    l.forM f = .ok () ↔ ∀ b ∈ l, f b = .ok () := by
  induction l with
  | nil => simp [List.forM, pure, Except.pure]
  | cons b l ih =>
      rw [List.forM, bind_eq_ok_iff, List.forall_mem_cons, ← ih]
      constructor
      · rintro ⟨_, hb, hl⟩
        exact ⟨hb, hl⟩
      · rintro ⟨hb, hl⟩
        exact ⟨_, hb, hl⟩

namespace Network

/-- Every road joins two different nodes of the network. -/
def JoinsNodes (n : Network α) : Prop :=
  ∀ e ∈ n.edges, e.tail < n.nodes.length ∧ e.head < n.nodes.length ∧ e.tail ≠ e.head

/-- Every node lists the roads that end there, in increasing order. -/
def ListsRoads (n : Network α) : Prop :=
  ∀ (i : Nat) (v : Node α), n.nodes[i]? = some v → v.incident = incidentTo n.edges i

/-- A network without loops and repeated roads in which a road ends at every node, and every node
lists its roads in increasing order. -/
structure IsSimple (n : Network α) : Prop where
  joinsNodes : n.JoinsNodes
  pairwise_ends : n.edges.Pairwise fun e f => e.ends ≠ f.ends
  one_le_degree : ∀ v ∈ n.nodes, 1 ≤ v.degree
  incident : ∀ (i : Nat) (v : Node α), n.nodes[i]? = some v → v.incident.Pairwise (· < ·) ∧
    ∀ k, k ∈ v.incident ↔ ∃ e, n.edges[k]? = some e ∧ (e.tail = i ∨ e.head = i)

theorem listsRoads_ofParts (name : String) (mergeTolerance : α) (rules : JunctionRules α)
    (places : List (Vec α × α)) (edges : List (Edge α)) (dropped : List DroppedSegment) :
    (ofParts name mergeTolerance rules places edges dropped).ListsRoads := by
  intro i v hv
  rw [getElem?_nodes_ofParts, Option.map_eq_some_iff] at hv
  obtain ⟨place, _, rfl⟩ := hv
  rfl

/-! ## The check -/

theorem checkEdge_eq_ok_iff {n : Network α} {i : Nat} {e : Edge α} :
    n.checkEdge i e = .ok () ↔
      e.tail < n.nodes.length ∧ e.head < n.nodes.length ∧ e.tail ≠ e.head := by
  rw [checkEdge]
  split
  · simp; omega
  · split
    · simp; omega
    · split
      · simp [*]
      · simp; omega

theorem checkNode_eq_ok_iff {n : Network α} {i : Nat} {v : Node α} :
    n.checkNode i v = .ok () ↔ v.incident.mergeSort = incidentTo n.edges i := by
  rw [checkNode]
  split <;> simp [*]

theorem mergeSort_incidentTo (edges : List (Edge α)) (i : Nat) :
    (incidentTo edges i).mergeSort = incidentTo edges i :=
  List.mergeSort_of_pairwise ((pairwise_incidentTo edges i).imp fun h => by simp; omega)

theorem length_incidentTo (edges : List (Edge α)) (i : Nat) :
    (incidentTo edges i).length = edges.countP fun e => e.touches i := by
  rw [incidentTo, List.length_map, ← List.countP_eq_length_filter]
  conv => rhs; rw [← List.zipIdx_map_fst 0 edges, List.countP_map]
  rfl

theorem forM_checkEdge_eq_ok_iff {n : Network α} :
    n.edges.zipIdx.forM (fun (e, i) => n.checkEdge i e) = .ok () ↔ n.JoinsNodes := by
  rw [forM_eq_ok_iff, JoinsNodes]
  simp only [Prod.forall, List.mem_zipIdx_iff_getElem?, checkEdge_eq_ok_iff]
  constructor
  · intro h e he
    rcases List.mem_iff_getElem?.mp he with ⟨i, hi⟩
    exact h e i hi
  · intro h e i he
    exact h e (List.mem_of_getElem? he)

theorem forM_checkNode_eq_ok_iff {n : Network α} :
    n.nodes.zipIdx.forM (fun (v, i) => n.checkNode i v) = .ok () ↔
      ∀ (i : Nat) (v : Node α), n.nodes[i]? = some v →
        v.incident.mergeSort = incidentTo n.edges i := by
  rw [forM_eq_ok_iff]
  simp only [Prod.forall, List.mem_zipIdx_iff_getElem?, checkNode_eq_ok_iff]
  exact forall_comm

variable [Scalar α]

/-- A network is coherent when it passes its check with the roads at every node in order. -/
structure IsCoherent (n : Network α) : Prop where
  joinsNodes : n.JoinsNodes
  listsRoads : n.ListsRoads
  apart : nearPairs n.mergeTolerance (n.nodes.map (·.position)) = []

theorem checkDistances_eq_ok_iff {n : Network α} :
    n.checkDistances = .ok () ↔ nearPairs n.mergeTolerance (n.nodes.map (·.position)) = [] := by
  rw [checkDistances]
  split <;> simp [*]

theorem validate_eq_ok_iff {n : Network α} :
    n.validate = .ok () ↔ n.JoinsNodes ∧
      (∀ (i : Nat) (v : Node α), n.nodes[i]? = some v →
        v.incident.mergeSort = incidentTo n.edges i) ∧
      nearPairs n.mergeTolerance (n.nodes.map (·.position)) = [] := by
  rw [← forM_checkEdge_eq_ok_iff, ← forM_checkNode_eq_ok_iff, ← checkDistances_eq_ok_iff,
    validate, bind_eq_ok_iff]
  simp only [bind_eq_ok_iff]
  constructor
  · rintro ⟨_, he, _, hv, hd⟩
    exact ⟨he, hv, hd⟩
  · rintro ⟨he, hv, hd⟩
    exact ⟨_, he, _, hv, hd⟩

theorem IsCoherent.validate_eq_ok {n : Network α} (h : n.IsCoherent) : n.validate = .ok () := by
  refine validate_eq_ok_iff.mpr ⟨h.joinsNodes, fun i v hv => ?_, h.apart⟩
  rw [h.listsRoads i v hv, mergeSort_incidentTo]

/-- In a sound network a node lists the roads that end there. -/
theorem mem_incident_iff {n : Network α} (h : n.validate = .ok ()) {i k : Nat} {v : Node α}
    (hv : n.nodes[i]? = some v) :
    k ∈ v.incident ↔ ∃ e, n.edges[k]? = some e ∧ e.touches i := by
  obtain ⟨_, hlists, _⟩ := validate_eq_ok_iff.mp h
  rw [← mem_incidentTo_iff, ← hlists i v hv]
  exact (List.mergeSort_perm _ _).mem_iff.symm

/-- A network that is put together from its parts is coherent when it passes its check. -/
theorem isCoherent_of_validate_eq_ok {n : Network α} (hlists : n.ListsRoads)
    (h : n.validate = .ok ()) : n.IsCoherent := by
  rcases validate_eq_ok_iff.mp h with ⟨hjoins, _, hapart⟩
  exact ⟨hjoins, hlists, hapart⟩

end Network

end Roadworks
