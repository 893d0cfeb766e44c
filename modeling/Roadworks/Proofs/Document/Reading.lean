import Mathlib.Data.List.Nodup
import Roadworks.Network.Document
import Roadworks.Proofs.Network.Soundness
/-! # What reading a document accepts

Reading looks up both ends of every road by name and then checks the network as a whole. -/

namespace Roadworks.NetworkDocument

/-! ## Names -/

theorem firstRepeated_eq_none_iff {seen names : List String} :
    firstRepeated seen names = none ↔ names.Nodup ∧ ∀ s ∈ names, s ∉ seen := by
  induction names generalizing seen with
  | nil => simp [firstRepeated]
  | cons s names ih =>
      rw [firstRepeated, List.nodup_cons, List.forall_mem_cons]
      split
      · next hseen =>
          have hmem : s ∈ seen := by simpa using hseen
          simp [hmem]
      · next hseen =>
          have hfresh : s ∉ seen := by simpa using hseen
          rw [ih]
          constructor
          · rintro ⟨hnodup, hrest⟩
            refine ⟨⟨fun hs => hrest s hs List.mem_cons_self, hnodup⟩, hfresh, fun t ht hmem => ?_⟩
            exact hrest t ht (List.mem_cons_of_mem _ hmem)
          · rintro ⟨⟨hs, hnodup⟩, _, hrest⟩
            refine ⟨hnodup, fun t ht hmem => ?_⟩
            rcases List.mem_cons.mp hmem with rfl | hmem
            · exact hs ht
            · exact hrest t ht hmem

variable {α : Type} [Scalar α] {d : NetworkDocument α}

omit [Scalar α] in
theorem nodeIndex?_eq_some_iff {name : String} {i : Nat} :
    d.nodeIndex? name = some i ↔
      (∃ r, d.nodes[i]? = some r ∧ r.id = name) ∧
        ∀ j < i, ∀ r, d.nodes[j]? = some r → r.id ≠ name := by
  rw [nodeIndex?, List.findIdx?_eq_some_iff_getElem]
  constructor
  · rintro ⟨hi, hname, hfirst⟩
    have hlt : i < d.nodes.length := by simpa using hi
    refine ⟨⟨d.nodes[i], List.getElem?_eq_getElem hlt, by simpa using hname⟩, ?_⟩
    intro j hj r hr
    rcases List.getElem?_eq_some_iff.mp hr with ⟨_, rfl⟩
    simpa using hfirst j hj
  · rintro ⟨⟨r, hr, hname⟩, hfirst⟩
    rcases List.getElem?_eq_some_iff.mp hr with ⟨hlt, rfl⟩
    refine ⟨by simpa using hlt, by simpa using hname, fun j hj => ?_⟩
    simpa using hfirst j hj _ (List.getElem?_eq_getElem (Nat.lt_trans hj hlt))

omit [Scalar α] in
/-- Where no two nodes share a name, a name leads to the node that has it. -/
theorem nodeIndex?_of_nodup (hnodup : (d.nodes.map (·.id)).Nodup) {i : Nat} {r : NodeRecord α}
    (hr : d.nodes[i]? = some r) : d.nodeIndex? r.id = some i := by
  refine nodeIndex?_eq_some_iff.mpr ⟨⟨r, hr, rfl⟩, fun j hj t ht heq => ?_⟩
  have hne := List.pairwise_iff_getElem.mp (List.pairwise_map.mp hnodup)
  rcases List.getElem?_eq_some_iff.mp hr with ⟨hi, rfl⟩
  rcases List.getElem?_eq_some_iff.mp ht with ⟨hj', rfl⟩
  exact hne j i hj' hi hj heq

/-! ## Roads -/

/-- The heading from one node to another. -/
def headingBetween (d : NetworkDocument α) (i j : Nat) : α :=
  let place (i : Nat) : Vec α := (d.nodes.map (·.position)).getD i .zero
  (place j - place i).heading

omit [Scalar α] in
theorem endOf_eq_ok_iff {r : SegmentRecord} {name : String} {i : Nat} :
    d.endOf r name = .ok i ↔ d.nodeIndex? name = some i := by
  rw [endOf]
  split
  · next h => simp [h]
  · next h => simp [h]

theorem edgeOf_eq_ok_iff {r : SegmentRecord} {source : Nat} {e : Edge α} :
    d.edgeOf r source = .ok e ↔ ∃ i j, d.nodeIndex? r.tail = some i ∧
      d.nodeIndex? r.head = some j ∧ i ≠ j ∧
      e = ⟨i, j, d.headingBetween i j, r.styleClass, source⟩ := by
  rw [edgeOf, bind_eq_ok_iff]
  simp only [bind_eq_ok_iff, endOf_eq_ok_iff]
  constructor
  · rintro ⟨i, hi, j, hj, h⟩
    split at h
    · cases h
    · next hij => exact ⟨i, j, hi, hj, hij, (Except.ok.inj h).symm⟩
  · rintro ⟨i, j, hi, hj, hij, rfl⟩
    exact ⟨i, hi, j, hj, by rw [if_neg hij]; rfl⟩

/-- The records are read when their names are new, no two share one, and each of them is read. -/
theorem edgesFrom_eq_ok_iff {seen : List String} {source : Nat} {records : List SegmentRecord}
    {edges : List (Edge α)} :
    d.edgesFrom seen source records = .ok edges ↔
      firstRepeated seen (records.map (·.id)) = none ∧
        List.Forall₂ (fun r e => d.edgeOf r.1 r.2 = .ok e) (records.zipIdx source) edges := by
  induction records generalizing seen source edges with
  | nil =>
      rw [edgesFrom, List.zipIdx_nil, List.forall₂_nil_left_iff]
      simp [firstRepeated, eq_comm]
  | cons r records ih =>
      rw [edgesFrom, List.map_cons, firstRepeated, List.zipIdx_cons, List.forall₂_cons_left_iff]
      split
      · simp
      · rw [bind_eq_ok_iff]
        simp only [bind_eq_ok_iff, ih]
        constructor
        · rintro ⟨e, he, others, ⟨hfresh, hothers⟩, h⟩
          exact ⟨hfresh, e, others, he, hothers, (Except.ok.inj h).symm⟩
        · rintro ⟨hfresh, e, others, he, hothers, rfl⟩
          exact ⟨e, he, others, ⟨hfresh, hothers⟩, rfl⟩

/-! ## The network -/

/-- The network of a document with the given roads. -/
def networkOf (d : NetworkDocument α) (edges : List (Edge α)) : Network α :=
  .ofParts d.name d.tolerance d.rules (d.nodes.map fun r => (r.position, r.elevation)) edges []

theorem toNetwork_eq_ok_iff {n : Network α} :
    d.toNetwork = .ok n ↔ Network.isTolerance d.tolerance = true ∧
      (d.nodes.map (·.id)).Nodup ∧ d.rules.badRadius? = none ∧
      ∃ edges, d.edgesFrom [] 0 d.segments = .ok edges ∧ n = d.networkOf edges ∧
        n.IsCoherent := by
  have hnames : firstRepeated [] (d.nodes.map (·.id)) = none ↔ (d.nodes.map (·.id)).Nodup := by
    rw [firstRepeated_eq_none_iff]
    simp
  have hchecked (edges : List (Edge α)) :
      (d.networkOf edges).validate = .ok () ↔ (d.networkOf edges).IsCoherent :=
    ⟨Network.isCoherent_of_validate_eq_ok (Network.listsRoads_ofParts _ _ _ _ _ _),
      Network.IsCoherent.validate_eq_ok⟩
  rw [← hnames, toNetwork]
  cases htolerance : Network.isTolerance d.tolerance with
  | false => simp [bind, Except.bind, throw, throwThe, MonadExceptOf.throw]
  | true =>
      cases hrepeated : firstRepeated [] (d.nodes.map (·.id)) with
      | some s => simp [bind, Except.bind, throw, throwThe, MonadExceptOf.throw]
      | none =>
          cases hradius : d.rules.badRadius? with
          | some r => simp [bind_eq_ok_iff]
          | none =>
              change (d.edgesFrom [] 0 d.segments >>= fun edges =>
                (d.networkOf edges).validate >>= fun _ => .ok (d.networkOf edges)) = .ok n ↔ _
              simp only [bind_eq_ok_iff, hchecked, Except.ok.injEq, true_and]
              constructor
              · rintro ⟨edges, hedges, _, hcoherent, rfl⟩
                exact ⟨edges, hedges, rfl, hcoherent⟩
              · rintro ⟨edges, hedges, rfl, hcoherent⟩
                exact ⟨edges, hedges, (), hcoherent, rfl⟩

end Roadworks.NetworkDocument
