import Mathlib.Order.Bounds.Basic
import Roadworks.Proofs.Forest.Joining
/-! # Calls on a forest

Searches and unions come in any order. A search shortens the ways that it walks, which no later
call can tell, so every call is answered by what the unions before it have connected. -/

namespace Roadworks

open Relation

/-- A call on a forest. -/
inductive Call where
  | find (i : Nat)
  | union (a b : Nat)

/-- What a call returns: a root, or whether two sets were apart. -/
inductive Reply where
  | root (r : Nat)
  | joined (apart : Bool)
deriving DecidableEq

namespace Call

/-- The numbers of the call are below `n`. -/
def IsWithin (n : Nat) : Call → Prop
  | find i => i < n
  | union a b => a < n ∧ b < n

/-- A chain of the unions among the calls leads from one number to the other. -/
def Connects (calls : List Call) : Nat → Nat → Prop := EqvGen fun a b => union a b ∈ calls

/-- The right reply to a call that comes after others: a search finds the lowest number that is
connected with its own, and a union reports numbers that were not connected. -/
def IsReply (before : List Call) : Call → Reply → Prop
  | find i, .root r => IsLeast {j | Connects before i j} r
  | union a b, .joined apart => apart = true ↔ ¬ Connects before a b
  | _, _ => False

/-- The pairs that the calls unite. -/
def unions (calls : List Call) : List (Nat × Nat) :=
  calls.filterMap fun
    | find _ => none
    | union a b => some (a, b)

theorem mem_unions_iff {calls : List Call} {a b : Nat} :
    (a, b) ∈ unions calls ↔ union a b ∈ calls := by
  rw [unions, List.mem_filterMap]
  constructor
  · intro h
    obtain ⟨c, hc, heq⟩ := h
    cases c with
    | find i => cases heq
    | union x y =>
        cases heq
        exact hc
  · intro h
    exact ⟨union a b, h, rfl⟩

end Call

namespace DisjointSet

/-- A call with what it returns, and the forest that it leaves. -/
def call (s : DisjointSet) : Call → Reply × DisjointSet
  | .find i => (.root (s.find i).1, (s.find i).2)
  | .union a b => (.joined (s.union a b).1, (s.union a b).2)

/-- Several calls with what they return, and the forest that they leave. -/
def run (s : DisjointSet) : List Call → List Reply × DisjointSet
  | [] => ([], s)
  | c :: rest => ((s.call c).1 :: ((s.call c).2.run rest).1, ((s.call c).2.run rest).2)

variable {s t : DisjointSet} {n i j : Nat} {calls : List Call}

/-! ## The loop of a search -/

/-- No number points at a larger one. -/
def IsOrdered (parents : Array Nat) : Prop := ∀ i (h : i < parents.size), parents[i] ≤ i

/-- One round of a search: a number that is no root is pointed at the parent of its parent, and the
search goes on from there. -/
inductive SearchStep : Array Nat × Nat → Array Nat × Nat → Prop where
  | halve {parents : Array Nat} {i : Nat} (hi : i < parents.size) (hp : parents[i] < parents.size)
      (hne : parents[i] ≠ i) :
      SearchStep (parents, i) (parents.set i parents[parents[i]], parents[parents[i]])

/-- A round keeps the order. -/
theorem SearchStep.isOrdered {before after : Array Nat × Nat} (h : SearchStep before after)
    (hordered : IsOrdered before.1) : IsOrdered after.1 := by
  cases h with
  | @halve parents i hi hp hne =>
      intro j hj
      rw [Array.getElem_set]
      have hparent : parents[i] ≤ i := hordered i hi
      have hsecond : parents[parents[i]] ≤ parents[i] := hordered _ hp
      split
      · omega
      · exact hordered j (by simpa using hj)

/-- So does any number of rounds. -/
theorem isOrdered_of_searchSteps {before after : Array Nat × Nat}
    (h : ReflTransGen SearchStep before after) (hordered : IsOrdered before.1) :
    IsOrdered after.1 := by
  induction h with
  | refl => exact hordered
  | tail _ hstep ih => exact hstep.isOrdered ih

theorem parent_eq_getElem (hi : i < s.parents.size) : s.parent i = s.parents[i] := by
  rw [parent, parentIn, Array.getElem?_eq_getElem hi, Option.getD_some]

theorem isOrdered_parents (s : DisjointSet) : IsOrdered s.parents := by
  intro i hi
  rw [← parent_eq_getElem hi]
  exact s.parent_le i

theorem searchStep_halve (hi : i < s.parents.size) (hne : s.parent i ≠ i) :
    SearchStep (s.parents, i) ((s.halve i).parents, (s.halve i).parent i) := by
  have hle : s.parent i ≤ i := s.parent_le i
  have hfirst : s.parent i = s.parents[i] := parent_eq_getElem hi
  have hp : s.parents[i] < s.parents.size := by omega
  have hsecond : s.parent (s.parent i) = s.parents[s.parents[i]] := by
    simp only [hfirst]
    exact parent_eq_getElem hp
  have hparents : (s.halve i).parents = s.parents.set i s.parents[s.parents[i]] := by
    change s.parents.setIfInBounds i (s.parent (s.parent i)) = _
    rw [hsecond, Array.setIfInBounds, dif_pos hi]
  have hparent : (s.halve i).parent i = s.parents[s.parents[i]] := by
    rw [halve, parent_redirect, if_pos ⟨rfl, hi⟩, hsecond]
  rw [hparents, hparent]
  exact .halve hi hp (hfirst ▸ hne)

/-- A search that begins inside the forest stays there and ends. -/
theorem searchSteps_find (hi : i < s.parents.size) :
    ReflTransGen SearchStep (s.parents, i) ((s.find i).2.parents, (s.find i).1) := by
  fun_induction find s i with
  | case1 s i h => exact .refl
  | case2 s i h ih =>
      have hlt : (s.halve i).parent i < (s.halve i).parents.size := by
        have hle : (s.halve i).parent i ≤ i := (s.halve i).parent_le i
        have hsize : (s.halve i).parents.size = s.parents.size := by simp [halve, redirect]
        omega
      exact .head (searchStep_halve hi h) (ih hlt)

/-- It ends at a root. -/
theorem getElem?_find (hi : i < s.parents.size) :
    (s.find i).2.parents[(s.find i).1]? = some (s.find i).1 := by
  have hlt : (s.find i).1 < (s.find i).2.parents.size := by
    rw [find_fst, size_find_snd]
    exact Nat.lt_of_le_of_lt (s.root_le i) hi
  have hroot : (s.find i).2.parent (s.find i).1 = (s.find i).1 := by
    have hfixed := (s.find i).2.parent_root i
    rwa [root_find_snd, ← find_fst] at hfixed
  rw [Array.getElem?_eq_getElem hlt, ← parent_eq_getElem hlt, hroot]

/-! ## What calls can tell of a forest -/

/-- The same numbers have the same roots. -/
structure SameSets (s t : DisjointSet) : Prop where
  size_eq : s.parents.size = t.parents.size
  root_eq : ∀ i, s.root i = t.root i

theorem SameSets.refl (s : DisjointSet) : s.SameSets s := ⟨rfl, fun _ => rfl⟩

theorem SameSets.symm (h : s.SameSets t) : t.SameSets s :=
  ⟨h.size_eq.symm, fun i => (h.root_eq i).symm⟩

theorem SameSets.trans {u : DisjointSet} (h : s.SameSets t) (h' : t.SameSets u) : s.SameSets u :=
  ⟨h.size_eq.trans h'.size_eq, fun i => (h.root_eq i).trans (h'.root_eq i)⟩

theorem sameSets_find (s : DisjointSet) (i : Nat) : (s.find i).2.SameSets s :=
  ⟨s.size_find_snd i, s.root_find_snd i⟩

theorem sameSets_halve (s : DisjointSet) (i : Nat) : (s.halve i).SameSets s := by
  constructor
  case size_eq => simp [halve, redirect]
  case root_eq =>
    intro j
    by_cases h : s.parent i = i
    · have hparent (k : Nat) : (s.halve i).parent k = s.parent k := by
        rw [halve, parent_redirect]
        split
        · next hk => rw [h, h, ← hk.1, h]
        · rfl
      induction j using Nat.strongRecOn with
      | ind j ih =>
          by_cases hj : s.parent j = j
          · rw [root_of_parent_eq hj, root_of_parent_eq ((hparent j).trans hj)]
          · rw [← root_parent, hparent, ih _ (s.parent_lt hj), root_parent]
    · exact s.root_halve h j

theorem SameSets.union (h : s.SameSets t) (a b : Nat) :
    (s.union a b).2.SameSets (t.union a b).2 := by
  constructor
  case size_eq => rw [size_union_snd, size_union_snd, h.size_eq]
  case root_eq =>
    intro i
    by_cases hab : a < s.parents.size ∧ b < s.parents.size
    · have hab' : a < t.parents.size ∧ b < t.parents.size := h.size_eq ▸ hab
      simp only [root_union_snd s hab.1 hab.2, root_union_snd t hab'.1 hab'.2, h.root_eq]
    · have hab' : ¬ (a < t.parents.size ∧ b < t.parents.size) := h.size_eq ▸ hab
      rw [root_union_snd_of_not_lt s hab, root_union_snd_of_not_lt t hab', h.root_eq]

theorem SameSets.joinAll (h : s.SameSets t) (pairs : List (Nat × Nat)) :
    (s.joinAll pairs).2.SameSets (t.joinAll pairs).2 := by
  induction pairs generalizing s t with
  | nil => exact h
  | cons p pairs ih => exact ih (h.union p.1 p.2)

theorem SameSets.call (h : s.SameSets t) (c : Call) :
    (s.call c).1 = (t.call c).1 ∧ (s.call c).2.SameSets (t.call c).2 := by
  cases c with
  | find i =>
      have hfind : (s.find i).1 = (t.find i).1 := by
        rw [find_fst, find_fst, h.root_eq]
      exact ⟨congrArg Reply.root hfind,
        (sameSets_find s i).trans (h.trans (sameSets_find t i).symm)⟩
  | union a b =>
      have hjoined : (s.union a b).1 = (t.union a b).1 := by
        rw [union_fst, union_fst, h.root_eq, h.root_eq]
      exact ⟨congrArg Reply.joined hjoined, h.union a b⟩

/-- Forests with the same sets give the same replies to all calls. -/
theorem SameSets.run_fst (h : s.SameSets t) (calls : List Call) :
    (s.run calls).1 = (t.run calls).1 := by
  induction calls generalizing s t with
  | nil => rfl
  | cons c calls ih =>
      obtain ⟨hreply, hsets⟩ := h.call c
      rw [run, run, hreply, ih hsets]

/-! ## Roots after calls -/

/-- Every reply is given by the forest that the calls before it leave. -/
theorem getElem?_run_fst (s : DisjointSet) {k : Nat} {c : Call} (h : calls[k]? = some c) :
    (s.run calls).1[k]? = some ((s.run (calls.take k)).2.call c).1 := by
  induction calls generalizing s k with
  | nil => simp at h
  | cons d calls ih =>
      cases k with
      | zero =>
          simp only [List.getElem?_cons_zero, Option.some.injEq] at h
          subst h
          rfl
      | succ k => exact ih _ h

/-- Searches change no set, so calls leave the sets of their unions. -/
theorem sameSets_run (s : DisjointSet) (calls : List Call) :
    (s.run calls).2.SameSets (s.joinAll (Call.unions calls)).2 := by
  induction calls generalizing s with
  | nil => exact .refl s
  | cons c calls ih =>
      cases c with
      | find i => exact (ih _).trans ((sameSets_find s i).joinAll _)
      | union a b => exact ih _

theorem size_run_new (n : Nat) (calls : List Call) : ((new n).run calls).2.parents.size = n := by
  rw [(sameSets_run _ _).size_eq, size_joinAll_snd]
  simp [new]

theorem covers_unions (h : ∀ c ∈ calls, c.IsWithin n) : (new n).Covers (Call.unions calls) := by
  intro p hp
  have hwithin : p.1 < n ∧ p.2 < n := h _ (Call.mem_unions_iff.mp hp)
  simpa [new] using hwithin

/-- Numbers have one root exactly if the calls have connected them. -/
theorem root_run_eq_iff (h : ∀ c ∈ calls, c.IsWithin n) (i j : Nat) :
    ((new n).run calls).2.root i = ((new n).run calls).2.root j ↔ Call.Connects calls i j := by
  have hsets := sameSets_run (new n) calls
  rw [hsets.root_eq, hsets.root_eq, root_joinAll_snd_eq_iff (covers_unions h), Linked,
    Call.Connects]
  simp only [root_new, Call.mem_unions_iff]
  constructor
  · refine EqvGen.eqvGen_le ?_ i j
    intro x y hxy
    cases hxy with
    | inl heq => exact heq ▸ .refl x
    | inr hunion => exact .rel x y hunion
  · exact EqvGen.mono (fun x y hxy => .inr hxy) i j

/-- The root is the lowest number that is connected. -/
theorem isLeast_root_run (h : ∀ c ∈ calls, c.IsWithin n) (i : Nat) :
    IsLeast {j | Call.Connects calls i j} (((new n).run calls).2.root i) := by
  constructor
  · apply (root_run_eq_iff h i _).mp
    rw [root_root]
  · intro j hj
    rw [(root_run_eq_iff h i j).mpr hj]
    exact root_le _ j

theorem isReply_call (h : ∀ c ∈ calls, c.IsWithin n) (c : Call) :
    Call.IsReply calls c (((new n).run calls).2.call c).1 := by
  cases c with
  | find i =>
      have hleast := isLeast_root_run h i
      rwa [← find_fst] at hleast
  | union a b =>
      change (((new n).run calls).2.union a b).1 = true ↔ _
      rw [union_fst, decide_eq_true_eq, Ne, root_run_eq_iff h]

/-- A search goes through rounds that stay inside the forest and keep its order, until it stands at
a root. -/
structure IsSearched (s : DisjointSet) (i : Nat) : Prop where
  steps : ReflTransGen SearchStep (s.parents, i) ((s.find i).2.parents, (s.find i).1)
  at_root : (s.find i).2.parents[(s.find i).1]? = some (s.find i).1
  isOrdered : ∀ state, ReflTransGen SearchStep (s.parents, i) state → IsOrdered state.1

theorem isSearched (hi : i < s.parents.size) : s.IsSearched i where
  steps := searchSteps_find hi
  at_root := getElem?_find hi
  isOrdered _ hstate := isOrdered_of_searchSteps hstate s.isOrdered_parents

/-- Calls on a fresh forest are answered by the connections that have been made before them. After
any of them the parents are in order and every search ends. The shortening of ways changes no reply
to later calls. -/
theorem calls_answered (h : ∀ c ∈ calls, c.IsWithin n) :
    (∀ k c, calls[k]? = some c → ∃ reply,
      ((new n).run calls).1[k]? = some reply ∧ Call.IsReply (calls.take k) c reply) ∧
    (∀ k, ((new n).run (calls.take k)).2.parents.size = n ∧
      IsOrdered ((new n).run (calls.take k)).2.parents ∧
      ∀ i < n, ((new n).run (calls.take k)).2.IsSearched i) ∧
    ∀ (s : DisjointSet) (i : Nat) (later : List Call),
      ((s.halve i).run later).1 = (s.run later).1 ∧
      ((s.find i).2.run later).1 = (s.run later).1 := by
  refine ⟨?_, ?_, ?_⟩
  · intro k c hc
    have hbefore : ∀ c ∈ calls.take k, c.IsWithin n := fun c hc => h c (List.mem_of_mem_take hc)
    exact ⟨_, getElem?_run_fst _ hc, isReply_call hbefore c⟩
  · intro k
    have hsize := size_run_new n (calls.take k)
    exact ⟨hsize, isOrdered_parents _, fun i hi => isSearched (hsize.symm ▸ hi)⟩
  · intro s i later
    exact ⟨(sameSets_halve s i).run_fst later, (sameSets_find s i).run_fst later⟩

/-- Five calls on four numbers: two unions that join, a search, one that joins nothing, and a search
for a number that is alone. -/
theorem calls_answered_chain :
    (∀ c ∈ [Call.union 3 1, .union 2 3, .find 3, .union 1 2, .find 0], c.IsWithin 4) ∧
    ((new 4).run [.union 3 1, .union 2 3, .find 3, .union 1 2, .find 0]).1 =
      [.joined true, .joined true, .root 1, .joined false, .root 0] ∧
    IsLeast {j | Call.Connects [.union 3 1, .union 2 3] 3 j} 1 := by
  have hwithin : ∀ c ∈ [Call.union 3 1, .union 2 3, .find 3, .union 1 2, .find 0],
      c.IsWithin 4 := by
    simp [Call.IsWithin]
  have hreplies : ((new 4).run [.union 3 1, .union 2 3, .find 3, .union 1 2, .find 0]).1 =
      [.joined true, .joined true, .root 1, .joined false, .root 0] := by
    decide +kernel
  obtain ⟨reply, hreply, hleast⟩ := (calls_answered hwithin).1 2 (.find 3) rfl
  rw [hreplies] at hreply
  obtain rfl : Reply.root 1 = reply := Option.some.inj hreply
  exact ⟨hwithin, hreplies, hleast⟩

end DisjointSet

end Roadworks
