import Mathlib.Data.List.ReduceOption
import Roadworks.Grammar.Rules
import Roadworks.Proofs.Text.Cutting
/-! # What rule texts say

A line holds a rule, holds nothing or breaks the form of rules in one way. A text is read when no line
breaks it, and its first broken line is the one that is reported. -/

namespace Roadworks

open Text

variable {α : Type} [Scalar α]

/-! ## Lines -/

/-- A line in the form of rules, and what it holds: nothing, or a symbol with one candidate. -/
inductive HoldsRule : List Char → Option (Char × Production α) → Prop where
  | blank {line : List Char} : Says line [] → HoldsRule line none
  | plain {line content left right body : List Char} {symbol : Char} :
    Says line content → IsCutByArrow content left right → IsTrimmed left [symbol] →
    IsTrimmed right body → body.head? ≠ some '(' →
    HoldsRule line (some (symbol, ⟨1.0, squeeze body⟩))
  | weighted {line content left right text number body : List Char} {symbol : Char} {weight : α} :
    Says line content → IsCutByArrow content left right → IsTrimmed left [symbol] →
    IsTrimmed right ('(' :: text ++ ')' :: body) → ')' ∉ text → IsTrimmed text number →
    Decimal.read number = some weight → HoldsRule line (some (symbol, ⟨weight, squeeze body⟩))

variable (α) in
/-- A line that breaks the form of rules, and the first thing that is wrong with it. -/
inductive BreaksForm : List Char → RuleFault → Prop where
  | missingArrow {line content : List Char} :
    Says line content → content ≠ [] → ¬ ['-', '>'] <:+: content → BreaksForm line .missingArrow
  | notOneSymbol {line content left right symbols : List Char} :
    Says line content → IsCutByArrow content left right → IsTrimmed left symbols →
    symbols.length ≠ 1 → BreaksForm line .notOneSymbol
  | unclosedWeight {line content left right rest : List Char} {symbol : Char} :
    Says line content → IsCutByArrow content left right → IsTrimmed left [symbol] →
    IsTrimmed right ('(' :: rest) → ')' ∉ rest → BreaksForm line .unclosedWeight
  | unreadableWeight {line content left right text number body : List Char} {symbol : Char} :
    Says line content → IsCutByArrow content left right → IsTrimmed left [symbol] →
    IsTrimmed right ('(' :: text ++ ')' :: body) → ')' ∉ text → IsTrimmed text number →
    Decimal.read (α := α) number = none → BreaksForm line .unreadableWeight

theorem readBody_plain {body : List Char} (h : body.head? ≠ some '(') :
    readBody (α := α) body = .ok ⟨1.0, squeeze body⟩ := by
  rw [readBody]
  rintro rest rfl
  exact h rfl

theorem readBody_unclosed {rest : List Char} (h : ')' ∉ rest) :
    readBody (α := α) ('(' :: rest) = .error .unclosedWeight := by
  rw [readBody, cutAt_eq_none_iff.mpr h]

theorem readBody_weighted {text number body : List Char} (htext : ')' ∉ text)
    (hnumber : IsTrimmed text number) :
    readBody (α := α) ('(' :: text ++ ')' :: body) =
      match Decimal.read number with
      | none => .error .unreadableWeight
      | some weight => .ok ⟨weight, squeeze body⟩ := by
  have hcut : cutAt ')' (text ++ ')' :: body) = some (text, body) :=
    cutAt_eq_some_iff.mpr ⟨rfl, htext⟩
  rw [List.cons_append, readBody, hcut]
  cases hread : Decimal.read (α := α) number <;> simp [trim_of_isTrimmed hnumber, hread]

theorem readRule_of_content {line content : List Char} (hcontent : Says line content)
    (hne : content ≠ []) : readRule (α := α) line =
      match cutArrow content with
      | none => .error .missingArrow
      | some (left, right) =>
        match trim left with
        | [symbol] => (readBody (trim right)).map fun p => some (symbol, p)
        | _ => .error .notOneSymbol := by
  rw [readRule, trim_takeWhile_eq_iff.mpr hcontent]
  cases content with
  | nil => exact absurd rfl hne
  | cons c content => rfl

theorem readRule_of_cut {line content left right : List Char} (hcontent : Says line content)
    (hcut : IsCutByArrow content left right) :
    readRule (α := α) line =
      match trim left with
      | [symbol] => (readBody (trim right)).map fun p => some (symbol, p)
      | _ => .error .notOneSymbol := by
  have hne : content ≠ [] := by
    rintro rfl
    exact absurd hcut.1 (by simp)
  rw [readRule_of_content hcontent hne, cutArrow_eq_some_iff.mpr hcut]

theorem readRule_of_symbol {line content left right body : List Char} {symbol : Char}
    (hcontent : Says line content) (hcut : IsCutByArrow content left right)
    (hleft : IsTrimmed left [symbol]) (hright : IsTrimmed right body) :
    readRule (α := α) line = (readBody body).map fun p => some (symbol, p) := by
  rw [readRule_of_cut hcontent hcut, trim_of_isTrimmed hleft, trim_of_isTrimmed hright]

theorem HoldsRule.readRule_eq {line : List Char} {held : Option (Char × Production α)}
    (h : HoldsRule line held) : readRule line = .ok held := by
  cases h with
  | blank hcontent => rw [readRule, trim_takeWhile_eq_iff.mpr hcontent]
  | plain hcontent hcut hleft hright hplain =>
      rw [readRule_of_symbol hcontent hcut hleft hright, readBody_plain hplain]
      rfl
  | weighted hcontent hcut hleft hright htext hnumber hweight =>
      rw [readRule_of_symbol hcontent hcut hleft hright, readBody_weighted htext hnumber, hweight]
      rfl

theorem BreaksForm.readRule_eq {line : List Char} {fault : RuleFault} (h : BreaksForm α line fault) :
    readRule (α := α) line = .error fault := by
  cases h with
  | missingArrow hcontent hne harrow =>
      rw [readRule_of_content hcontent hne, cutArrow_eq_none_iff.mpr harrow]
  | @notOneSymbol _ _ _ symbols hcontent hcut hleft hlength =>
      rw [readRule_of_cut hcontent hcut, trim_of_isTrimmed hleft]
      match symbols with
      | [] => rfl
      | [symbol] => exact absurd rfl hlength
      | _ :: _ :: _ => rfl
  | unclosedWeight hcontent hcut hleft hright hrest =>
      rw [readRule_of_symbol hcontent hcut hleft hright, readBody_unclosed hrest]
      rfl
  | unreadableWeight hcontent hcut hleft hright htext hnumber hweight =>
      rw [readRule_of_symbol hcontent hcut hleft hright, readBody_weighted htext hnumber, hweight]
      rfl

/-- A line with an arrow after one symbol holds a rule, unless the weight before its body is broken. -/
theorem holdsRule_or_breaksForm_of_cut {line content left right : List Char} {symbol : Char}
    (hcontent : Says line content) (hcut : IsCutByArrow content left right)
    (hleft : IsTrimmed left [symbol]) :
    (∃ held : Option (Char × Production α), HoldsRule line held) ∨
      ∃ fault, BreaksForm α line fault := by
  obtain ⟨body, hright⟩ := exists_isTrimmed right
  by_cases hopen : body.head? = some '('
  · obtain ⟨rest, rfl⟩ := List.head?_eq_some_iff.mp hopen
    cases hclose : cutAt ')' rest with
    | none =>
        exact .inr ⟨_, .unclosedWeight hcontent hcut hleft hright (cutAt_eq_none_iff.mp hclose)⟩
    | some pieces =>
        obtain ⟨text, body⟩ := pieces
        obtain ⟨rfl, htext⟩ := cutAt_eq_some_iff.mp hclose
        obtain ⟨number, hnumber⟩ := exists_isTrimmed text
        cases hweight : Decimal.read (α := α) number with
        | none =>
            exact .inr ⟨_, .unreadableWeight hcontent hcut hleft hright htext hnumber hweight⟩
        | some weight =>
            exact .inl ⟨_, .weighted hcontent hcut hleft hright htext hnumber hweight⟩
  · exact .inl ⟨_, .plain hcontent hcut hleft hright hopen⟩

/-- Every line is in form or breaks it. -/
theorem holdsRule_or_breaksForm (line : List Char) :
    (∃ held : Option (Char × Production α), HoldsRule line held) ∨
      ∃ fault, BreaksForm α line fault := by
  obtain ⟨content, hcontent⟩ : ∃ content, Says line content := ⟨_, trim_takeWhile_eq_iff.mp rfl⟩
  by_cases hne : content = []
  · subst hne
    exact .inl ⟨none, .blank hcontent⟩
  · cases harrow : cutArrow content with
    | none => exact .inr ⟨_, .missingArrow hcontent hne (cutArrow_eq_none_iff.mp harrow)⟩
    | some pieces =>
        have hcut := cutArrow_eq_some_iff.mp harrow
        obtain ⟨symbols, hleft⟩ := exists_isTrimmed pieces.1
        by_cases hone : symbols.length = 1
        · obtain ⟨symbol, rfl⟩ := List.length_eq_one_iff.mp hone
          exact holdsRule_or_breaksForm_of_cut hcontent hcut hleft
        · exact .inr ⟨_, .notOneSymbol hcontent hcut hleft hone⟩

theorem readRule_eq_ok_iff {line : List Char} {held : Option (Char × Production α)} :
    readRule line = .ok held ↔ HoldsRule line held := by
  refine ⟨fun h => ?_, HoldsRule.readRule_eq⟩
  rcases holdsRule_or_breaksForm (α := α) line with ⟨held', hheld⟩ | ⟨fault, hfault⟩
  · rw [hheld.readRule_eq] at h
    cases h
    exact hheld
  · rw [hfault.readRule_eq] at h
    cases h

theorem readRule_eq_error_iff {line : List Char} {fault : RuleFault} :
    readRule (α := α) line = .error fault ↔ BreaksForm α line fault := by
  refine ⟨fun h => ?_, BreaksForm.readRule_eq⟩
  rcases holdsRule_or_breaksForm (α := α) line with ⟨held, hheld⟩ | ⟨fault', hfault⟩
  · rw [hheld.readRule_eq] at h
    cases h
  · rw [hfault.readRule_eq] at h
    cases h
    exact hfault

/-! ## Texts -/

theorem readRule_withoutReturn (line : List Char) :
    readRule (α := α) (withoutReturn line) = readRule line := by
  rw [readRule, readRule, trim_takeWhile_withoutReturn]

theorem readLines_linesOf (number : Nat) (pieces : List (List Char)) :
    readLines (α := α) number (linesOf pieces) = readLines number pieces := by
  fun_induction linesOf pieces generalizing number with
  | case1 => rfl
  | case2 => rfl
  | case3 => rfl
  | case4 piece rest hrest ih =>
      rw [readLines, readLines, readRule_withoutReturn, ih]

/-- The line number `k`, counted from zero, is the first that breaks the form of rules. -/
def BreaksFirstAt (α : Type) [Scalar α] (lines : List (List Char)) (k : Nat) (fault : RuleFault) :
    Prop :=
  ∃ before line after, lines = before ++ line :: after ∧ before.length = k ∧
    (∀ l ∈ before, ∃ held : Option (Char × Production α), HoldsRule l held) ∧ BreaksForm α line fault

theorem readLines_cons_of_holdsRule {line : List Char} {held : Option (Char × Production α)}
    (h : HoldsRule line held) (number : Nat) (lines : List (List Char)) :
    readLines number (line :: lines) =
      (readLines (number + 1) lines).map fun rules => held.toList ++ rules := by
  rw [readLines, h.readRule_eq]
  cases held with
  | none => cases readLines (α := α) (number + 1) lines <;> rfl
  | some rule => rfl

theorem readLines_cons_of_breaksForm {line : List Char} {fault : RuleFault}
    (h : BreaksForm α line fault) (number : Nat) (lines : List (List Char)) :
    readLines (α := α) number (line :: lines) = .error (.malformedRule number fault) := by
  rw [readLines, h.readRule_eq]

/-- Lines in form are read to the rules that they hold. -/
theorem readLines_of_forall₂ {lines : List (List Char)} {held : List (Option (Char × Production α))}
    (h : List.Forall₂ HoldsRule lines held) (number : Nat) :
    readLines number lines = .ok held.reduceOption := by
  induction h generalizing number with
  | nil => rfl
  | @cons line rule lines held hline _ ih =>
      rw [readLines_cons_of_holdsRule hline, ih]
      cases rule <;> rfl

/-- Reading stops at the first line that breaks the form of rules. -/
theorem BreaksFirstAt.readLines_eq {lines : List (List Char)} {k : Nat} {fault : RuleFault}
    (h : BreaksFirstAt α lines k fault) (number : Nat) :
    readLines (α := α) number lines = .error (.malformedRule (number + k) fault) := by
  obtain ⟨before, line, after, rfl, rfl, hbefore, hline⟩ := h
  induction before generalizing number with
  | nil => exact readLines_cons_of_breaksForm hline number after
  | cons first before ih =>
      obtain ⟨⟨held, hfirst⟩, hbefore⟩ := List.forall_mem_cons.mp hbefore
      rw [List.cons_append, readLines_cons_of_holdsRule hfirst, ih (number + 1) hbefore,
        List.length_cons, Nat.add_assoc, Nat.add_comm 1]
      rfl

theorem forall₂_or_breaksFirstAt (lines : List (List Char)) :
    (∃ held : List (Option (Char × Production α)), List.Forall₂ HoldsRule lines held) ∨
      ∃ k fault, BreaksFirstAt α lines k fault := by
  induction lines with
  | nil => exact .inl ⟨[], .nil⟩
  | cons line lines ih =>
      rcases holdsRule_or_breaksForm (α := α) line with ⟨rule, hrule⟩ | ⟨fault, hfault⟩
      · rcases ih with ⟨held, hheld⟩ | ⟨k, fault, before, broken, after, rfl, rfl, hbefore, hfault⟩
        · exact .inl ⟨rule :: held, .cons hrule hheld⟩
        · exact .inr ⟨_, fault, line :: before, broken, after, rfl, rfl,
            List.forall_mem_cons.mpr ⟨⟨rule, hrule⟩, hbefore⟩, hfault⟩
      · exact .inr ⟨0, fault, [], line, lines, rfl, rfl, List.forall_mem_nil _, hfault⟩

theorem exists_forall₂_holdsRule_iff {lines : List (List Char)} :
    (∃ held : List (Option (Char × Production α)), List.Forall₂ HoldsRule lines held) ↔
      ∀ line ∈ lines, ∃ held : Option (Char × Production α), HoldsRule line held := by
  induction lines with
  | nil => exact ⟨fun _ => List.forall_mem_nil _, fun _ => ⟨[], .nil⟩⟩
  | cons line lines ih =>
      rw [List.forall_mem_cons, ← ih]
      constructor
      · rintro ⟨_, h⟩
        cases h with
        | cons hrule hheld => exact ⟨⟨_, hrule⟩, _, hheld⟩
      · rintro ⟨⟨rule, hrule⟩, held, hheld⟩
        exact ⟨rule :: held, .cons hrule hheld⟩

theorem readLines_eq_ok_iff {number : Nat} {lines : List (List Char)}
    {rules : List (Char × Production α)} :
    readLines number lines = .ok rules ↔
      ∃ held, List.Forall₂ HoldsRule lines held ∧ rules = held.reduceOption := by
  constructor
  · intro h
    rcases forall₂_or_breaksFirstAt (α := α) lines with ⟨held, hheld⟩ | ⟨k, fault, hfault⟩
    · rw [readLines_of_forall₂ hheld] at h
      exact ⟨held, hheld, (Except.ok.inj h).symm⟩
    · rw [hfault.readLines_eq] at h
      cases h
  · rintro ⟨held, hheld, rfl⟩
    exact readLines_of_forall₂ hheld number

theorem readLines_eq_error_iff {number : Nat} {lines : List (List Char)} {e : ConfigError α} :
    readLines number lines = .error e ↔
      ∃ k fault, BreaksFirstAt α lines k fault ∧ e = .malformedRule (number + k) fault := by
  constructor
  · intro h
    rcases forall₂_or_breaksFirstAt (α := α) lines with ⟨held, hheld⟩ | ⟨k, fault, hfault⟩
    · rw [readLines_of_forall₂ hheld] at h
      cases h
    · rw [hfault.readLines_eq] at h
      exact ⟨k, fault, hfault, (Except.error.inj h).symm⟩
  · rintro ⟨k, fault, hfault, rfl⟩
    exact hfault.readLines_eq number

end Roadworks
