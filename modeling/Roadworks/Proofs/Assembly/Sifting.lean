import Mathlib.Data.Sym.Sym2
import Roadworks.Network.Assembly
/-! # Which segments are kept

A segment is kept unless it shrinks to one cluster or an earlier segment joins the same two
clusters. The sifting remembers kept segments only, which is enough: the first segment between two
clusters is kept. -/

namespace Roadworks.Placed

variable {α : Type}

/-! ## Parallel segments -/

/-- The two clusters of a segment, in no order. -/
def ends (p : Placed α) : Sym2 Nat := s(p.tail, p.head)

theorem parallel_iff {p q : Placed α} : p.parallel q ↔ p.ends = q.ends := by
  simp [parallel, ends]

theorem touches_iff {p : Placed α} {c : Nat} : p.touches c ↔ c ∈ p.ends := by
  rw [touches, ends, Sym2.mem_iff, Bool.or_eq_true, beq_iff_eq, beq_iff_eq, eq_comm,
    eq_comm (a := c) (b := p.head)]

theorem isDiag_ends_iff {p : Placed α} : p.ends.IsDiag ↔ p.tail = p.head :=
  Sym2.mk_isDiag_iff

/-! ## Fates -/

/-- What becomes of a segment that comes after others: nothing is said of it where it is kept. -/
def fate (before : List (Placed α)) (p : Placed α) : Option DroppedSegment :=
  if p.tail = p.head then some (.degenerate p.segment.id)
  else (before.find? p.parallel).map fun q => .duplicate p.segment.id q.segment.id

/-- What becomes of all segments of a list that comes after others. -/
def fates (before : List (Placed α)) : List (Placed α) → List (Option DroppedSegment)
  | [] => []
  | p :: rest => fate before p :: fates (before ++ [p]) rest

/-- The segments of a list whose fate is to be kept. -/
def keptOf (segments : List (Placed α)) (fates : List (Option DroppedSegment)) : List (Placed α) :=
  ((segments.zip fates).filter fun e => e.2.isNone).map (·.1)

theorem fate_eq_none_iff {before : List (Placed α)} {p : Placed α} :
    fate before p = none ↔ ¬ p.ends.IsDiag ∧ ∀ q ∈ before, p.ends ≠ q.ends := by
  rw [fate, isDiag_ends_iff]
  split
  · next h => simp [h]
  · next h => simp [h, parallel_iff]

/-- The segments in `kept` tell of every segment that does not shrink what those in `before` do. -/
def Remembers (kept before : List (Placed α)) : Prop :=
  ∀ p : Placed α, ¬ p.ends.IsDiag → kept.find? p.parallel = before.find? p.parallel

theorem Remembers.fate_eq {kept before : List (Placed α)} (h : Remembers kept before)
    (p : Placed α) : fate kept p = fate before p := by
  rw [fate, fate]
  split
  · rfl
  · next hp => rw [h p (isDiag_ends_iff.not.mpr hp)]

/-- A segment need not be remembered when it is left out: it shrinks, or one before it is
parallel. -/
theorem Remembers.append_right {kept before : List (Placed α)} (h : Remembers kept before)
    {p : Placed α} (hp : fate before p ≠ none) : Remembers kept (before ++ [p]) := by
  intro q hq
  rw [h q hq, List.find?_append]
  cases hfind : before.find? q.parallel with
  | some r => rfl
  | none =>
      have hapart : ∀ r ∈ before, q.ends ≠ r.ends := by
        simpa [List.find?_eq_none, parallel_iff] using hfind
      have hne : q.ends ≠ p.ends := by
        intro heq
        rw [heq] at hq hapart
        exact hp (fate_eq_none_iff.mpr ⟨hq, hapart⟩)
      have hfalse : q.parallel p = false := by
        rw [Bool.eq_false_iff, ne_eq, parallel_iff]
        exact hne
      simp [hfalse]

theorem Remembers.append {kept before : List (Placed α)} (h : Remembers kept before)
    (p : Placed α) : Remembers (kept ++ [p]) (before ++ [p]) := by
  intro q hq
  rw [List.find?_append, List.find?_append, h q hq]

theorem sift_eq {kept before rest : List (Placed α)} (h : Remembers kept before) :
    sift kept rest = (keptOf rest (fates before rest), (fates before rest).filterMap id) := by
  -- What has been kept so far goes on remembering what has been seen so far.
  induction rest generalizing kept before with
  | nil => rfl
  | cons p rest ih =>
      rw [sift, fates, ← h.fate_eq p]
      by_cases hshrinks : p.tail = p.head
      · have hfate : fate kept p = some (.degenerate p.segment.id) := by simp [fate, hshrinks]
        have hdropped : fate before p ≠ none := by rw [← h.fate_eq p, hfate]; simp
        rw [if_pos hshrinks, ih (h.append_right hdropped), hfate]
        rfl
      · rw [if_neg hshrinks]
        cases hfind : kept.find? p.parallel with
        | some q =>
            have hfate : fate kept p = some (.duplicate p.segment.id q.segment.id) := by
              simp [fate, hshrinks, hfind]
            have hdropped : fate before p ≠ none := by rw [← h.fate_eq p, hfate]; simp
            dsimp only
            rw [ih (h.append_right hdropped), hfate]
            rfl
        | none =>
            have hfate : fate kept p = none := by simp [fate, hshrinks, hfind]
            dsimp only
            rw [ih (h.append p), hfate]
            rfl

theorem sift_nil (segments : List (Placed α)) :
    sift [] segments =
      (keptOf segments (fates [] segments), (fates [] segments).filterMap id) :=
  sift_eq fun _ _ => rfl

/-! ## Fates by position -/

theorem length_fates (before rest : List (Placed α)) :
    (fates before rest).length = rest.length := by
  induction rest generalizing before with
  | nil => rfl
  | cons p rest ih => rw [fates, List.length_cons, ih, List.length_cons]

/-- The fate of a segment depends on all segments before it. -/
theorem getElem?_fates (before rest : List (Placed α)) (i : Nat) :
    (fates before rest)[i]? = rest[i]?.map (fate (before ++ rest.take i)) := by
  induction rest generalizing before i with
  | nil => rfl
  | cons p rest ih =>
      cases i with
      | zero => simp [fates]
      | succ i => simp [fates, ih]

theorem fates_eq_none_iff {segments : List (Placed α)} {i : Nat} {p : Placed α}
    (hp : segments[i]? = some p) :
    (fates [] segments)[i]? = some none ↔
      ¬ p.ends.IsDiag ∧ ∀ j < i, ∀ q, segments[j]? = some q → p.ends ≠ q.ends := by
  rw [getElem?_fates, hp, Option.map_some, Option.some.injEq, fate_eq_none_iff, List.nil_append]
  refine and_congr_right fun _ => ⟨fun h j hj q hq => h q ?_, fun h q hq => ?_⟩
  · rcases List.getElem?_eq_some_iff.mp hq with ⟨hbound, rfl⟩
    exact List.mem_take_iff_getElem.mpr ⟨j, by omega, rfl⟩
  · rcases List.mem_take_iff_getElem.mp hq with ⟨j, hj, rfl⟩
    exact h j (by omega) _ (List.getElem?_eq_getElem _)

theorem fates_eq_degenerate_iff {segments : List (Placed α)} {i : Nat} {p : Placed α}
    (hp : segments[i]? = some p) :
    (fates [] segments)[i]? = some (some (.degenerate p.segment.id)) ↔ p.ends.IsDiag := by
  rw [getElem?_fates, hp, Option.map_some, Option.some.injEq, fate, isDiag_ends_iff]
  split
  · next h => simp [h]
  · next h => simp [h]

/-- The segment that a search among those before finds is the only kept one that is parallel. -/
theorem find?_take_eq_some_iff {segments : List (Placed α)} {i : Nat} {p q : Placed α}
    (hp : ¬ p.ends.IsDiag) :
    (segments.take i).find? p.parallel = some q ↔
      p.ends = q.ends ∧ ∃ j < i, segments[j]? = some q ∧ (fates [] segments)[j]? = some none := by
  rw [List.find?_eq_some_iff_getElem, parallel_iff]
  refine and_congr_right fun hends => ⟨?_, ?_⟩
  · rintro ⟨j, hj, hq, hfirst⟩
    have hlt : j < i ∧ j < segments.length := by simpa using hj
    have hget : segments[j]? = some q := by
      rw [List.getElem?_eq_getElem hlt.2, ← hq, List.getElem_take]
    refine ⟨j, hlt.1, hget, (fates_eq_none_iff hget).mpr ⟨hends ▸ hp, ?_⟩⟩
    intro k hk r hr
    rcases List.getElem?_eq_some_iff.mp hr with ⟨hbound, rfl⟩
    have hapart := hfirst k hk
    rw [List.getElem_take, Bool.not_eq_true', Bool.eq_false_iff, ne_eq, parallel_iff] at hapart
    rwa [← hends]
  · rintro ⟨j, hj, hget, hkept⟩
    rcases List.getElem?_eq_some_iff.mp hget with ⟨hbound, rfl⟩
    rcases (fates_eq_none_iff hget).mp hkept with ⟨_, hapart⟩
    refine ⟨j, by simp [hj, hbound], List.getElem_take, ?_⟩
    intro k hk
    rw [List.getElem_take, Bool.not_eq_true', Bool.eq_false_iff, ne_eq, parallel_iff, hends]
    exact hapart k hk _ (List.getElem?_eq_getElem (Nat.lt_trans hk hbound))

/-- A segment that does not shrink is reported as the duplicate of the kept segment before it that
is parallel to it. -/
theorem fates_eq_duplicate_iff {segments : List (Placed α)} {i k : Nat} {p : Placed α}
    (hp : segments[i]? = some p) :
    (fates [] segments)[i]? = some (some (.duplicate p.segment.id k)) ↔
      ¬ p.ends.IsDiag ∧ ∃ j < i, ∃ q, segments[j]? = some q ∧
        (fates [] segments)[j]? = some none ∧ p.ends = q.ends ∧ k = q.segment.id := by
  rw [getElem?_fates, hp, Option.map_some, Option.some.injEq, fate, List.nil_append]
  by_cases hdiag : p.ends.IsDiag
  · simp [isDiag_ends_iff.mp hdiag, hdiag]
  · rw [if_neg (isDiag_ends_iff.not.mp hdiag), Option.map_eq_some_iff]
    constructor
    · rintro ⟨q, hfind, heq⟩
      rcases (find?_take_eq_some_iff hdiag).mp hfind with ⟨hends, j, hj, hq, hkept⟩
      rcases DroppedSegment.duplicate.inj heq with ⟨-, rfl⟩
      exact ⟨hdiag, j, hj, q, hq, hkept, hends, rfl⟩
    · rintro ⟨_, j, hj, q, hq, hkept, hends, rfl⟩
      exact ⟨q, (find?_take_eq_some_iff hdiag).mpr ⟨hends, j, hj, hq, hkept⟩, rfl⟩

/-- A segment is kept, or it is reported under its own number. -/
theorem fates_cases {segments : List (Placed α)} {i : Nat} {p : Placed α}
    (hp : segments[i]? = some p) :
    (fates [] segments)[i]? = some none ∨
      (fates [] segments)[i]? = some (some (.degenerate p.segment.id)) ∨
      ∃ k, (fates [] segments)[i]? = some (some (.duplicate p.segment.id k)) := by
  rw [getElem?_fates, hp, Option.map_some, fate]
  split
  · exact .inr (.inl rfl)
  · cases (([] ++ segments.take i).find? p.parallel) with
    | none => exact .inl rfl
    | some q => exact .inr (.inr ⟨q.segment.id, rfl⟩)

/-! ## The kept segments -/

theorem mem_keptOf_iff {segments : List (Placed α)} {fates : List (Option DroppedSegment)}
    {p : Placed α} :
    p ∈ keptOf segments fates ↔ ∃ i : Nat, segments[i]? = some p ∧ fates[i]? = some none := by
  rw [keptOf, List.mem_map]
  constructor
  · rintro ⟨⟨p, f⟩, hmem, rfl⟩
    rcases List.mem_filter.mp hmem with ⟨hzip, hnone⟩
    rcases List.mem_iff_getElem?.mp hzip with ⟨i, hi⟩
    rw [List.getElem?_zip_eq_some] at hi
    exact ⟨i, hi.1, by rw [hi.2, Option.isNone_iff_eq_none.mp hnone]⟩
  · rintro ⟨i, hp, hf⟩
    refine ⟨(p, none), List.mem_filter.mpr ⟨?_, rfl⟩, rfl⟩
    exact List.mem_iff_getElem?.mpr ⟨i, List.getElem?_zip_eq_some.mpr ⟨hp, hf⟩⟩

theorem keptOf_map_none (segments : List (Placed α)) :
    keptOf segments (segments.map fun _ => none) = segments := by
  induction segments with
  | nil => rfl
  | cons p segments ih => exact congrArg (p :: ·) ih

theorem ends_of_mem_keptOf {before rest : List (Placed α)} {p : Placed α}
    (hp : p ∈ keptOf rest (fates before rest)) :
    ¬ p.ends.IsDiag ∧ ∀ q ∈ before, p.ends ≠ q.ends := by
  rcases mem_keptOf_iff.mp hp with ⟨i, hi, hnone⟩
  rw [getElem?_fates, hi, Option.map_some, Option.some.injEq, fate_eq_none_iff] at hnone
  exact ⟨hnone.1, fun q hq => hnone.2 q (List.mem_append_left _ hq)⟩

theorem pairwise_keptOf (before rest : List (Placed α)) :
    (keptOf rest (fates before rest)).Pairwise fun p q => p.ends ≠ q.ends := by
  induction rest generalizing before with
  | nil => exact List.Pairwise.nil
  | cons p rest ih =>
      rw [keptOf, fates, List.zip_cons_cons, List.filter_cons]
      split
      · rw [List.map_cons, List.pairwise_cons]
        refine ⟨fun q hq => ?_, ih (before ++ [p])⟩
        exact (ends_of_mem_keptOf hq).2 p (by simp) |>.symm
      · exact ih (before ++ [p])

/-- A segment that does not shrink is kept, or a parallel one is. -/
theorem exists_mem_keptOf_ends_eq {segments : List (Placed α)} {p : Placed α} (hp : p ∈ segments)
    (hdiag : ¬ p.ends.IsDiag) : ∃ q ∈ keptOf segments (fates [] segments), p.ends = q.ends := by
  rcases List.mem_iff_getElem?.mp hp with ⟨i, hi⟩
  rcases fates_cases hi with hkept | hshrinks | ⟨k, hduplicate⟩
  · exact ⟨p, mem_keptOf_iff.mpr ⟨i, hi, hkept⟩, rfl⟩
  · exact absurd ((fates_eq_degenerate_iff hi).mp hshrinks) hdiag
  · rcases (fates_eq_duplicate_iff hi).mp hduplicate with ⟨_, j, _, q, hq, hkept, hends, _⟩
    exact ⟨q, mem_keptOf_iff.mpr ⟨j, hq, hkept⟩, hends⟩

/-- Every segment is either kept or reported. -/
theorem length_keptOf_add_length (before rest : List (Placed α)) :
    (keptOf rest (fates before rest)).length + ((fates before rest).filterMap id).length =
      rest.length := by
  induction rest generalizing before with
  | nil => rfl
  | cons p rest ih =>
      have hrest := ih (before ++ [p])
      rw [keptOf, List.length_map] at hrest ⊢
      rw [fates, List.zip_cons_cons]
      cases fate before p with
      | none =>
          rw [List.filter_cons_of_pos rfl, List.filterMap_cons_none rfl, List.length_cons,
            List.length_cons]
          omega
      | some w =>
          rw [List.filter_cons_of_neg Bool.false_ne_true,
            List.filterMap_cons_some (f := id) (b := w) rfl, List.length_cons, List.length_cons]
          omega

end Roadworks.Placed
