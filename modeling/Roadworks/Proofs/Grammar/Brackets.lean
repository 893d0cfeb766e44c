import Roadworks.Proofs.Grammar.Rewriting
/-! # Brackets in a growing word

When brackets stay as they are and every other symbol gives way to a word in which brackets match, the
brackets of the whole word match as well, and a pass makes it deeper by no more than the deepest of
those words. -/

namespace Roadworks

/-! ## Matching brackets -/

/-- A word with as many closing brackets as opening ones, no beginning of which has more closing ones
than opening ones. -/
structure IsBracketed (word : Word) : Prop where
  closing_le : ∀ u ∈ word.inits, u.count ']' ≤ u.count '['
  closing_eq : word.count ']' = word.count '['

instance (word : Word) : Decidable (IsBracketed word) :=
  decidable_of_iff ((∀ u ∈ word.inits, u.count ']' ≤ u.count '[') ∧ word.count ']' = word.count '[')
    ⟨fun h => ⟨h.1, h.2⟩, fun h => ⟨h.1, h.2⟩⟩

/-- The largest number of brackets that are open at once. -/
def depth (word : Word) : Nat :=
  (word.inits.map fun u => u.count '[' - u.count ']').foldr max 0

/-- How many brackets a word opens more than it closes. -/
def height (word : Word) : Int := (word.count '[' : Int) - word.count ']'

@[simp]
theorem height_nil : height [] = 0 := rfl

@[simp]
theorem height_append (u v : Word) : height (u ++ v) = height u + height v := by
  simp only [height, List.count_append]
  omega

theorem height_cons (symbol : Char) (u : Word) : height (symbol :: u) = height [symbol] + height u :=
  height_append [symbol] u

theorem height_eq_zero {symbol : Char} (hopening : symbol ≠ '[') (hclosing : symbol ≠ ']') :
    height [symbol] = 0 := by
  simp [height, hopening, hclosing]

theorem isBracketed_iff {word : Word} :
    IsBracketed word ↔ (∀ u, u <+: word → 0 ≤ height u) ∧ height word = 0 := by
  constructor
  · intro h
    have hclosing := h.closing_eq
    refine ⟨fun u hu => ?_, by rw [height]; omega⟩
    have hle := h.closing_le u ((List.mem_inits u word).mpr hu)
    rw [height]
    omega
  · rintro ⟨hnonneg, hzero⟩
    rw [height] at hzero
    refine ⟨fun u hu => ?_, by omega⟩
    have hle := hnonneg u ((List.mem_inits u word).mp hu)
    rw [height] at hle
    omega

/-- Equal counts are not enough. -/
example : ¬ IsBracketed "F][F".toList := by decide

theorem foldr_max_le_iff {l : List Nat} {d : Nat} : l.foldr max 0 ≤ d ↔ ∀ n ∈ l, n ≤ d := by
  induction l with
  | nil => simp
  | cons n l ih => rw [List.foldr_cons, Nat.max_le, ih, List.forall_mem_cons]

theorem depth_le_iff {word : Word} {d : Nat} : depth word ≤ d ↔ ∀ u, u <+: word → height u ≤ d := by
  rw [depth, foldr_max_le_iff, List.forall_mem_map]
  refine forall_congr' fun u => ?_
  rw [List.mem_inits, height]
  refine imp_congr_right fun _ => ?_
  omega

theorem prefix_append_cases {p u v : Word} (h : p <+: u ++ v) :
    p <+: u ∨ ∃ q, q <+: v ∧ p = u ++ q := by
  rcases List.prefix_or_prefix_of_prefix h (List.prefix_append u v) with hp | ⟨q, rfl⟩
  · exact .inl hp
  · exact .inr ⟨q, (List.prefix_append_right_inj u).mp h, rfl⟩

/-! ## One pass -/

/-- Brackets stay, and what may take the place of another symbol is that symbol, or a word in which
brackets match and which is not deeper than the bound. -/
def KeepsBrackets (becomes : Char → Word → Prop) (d : Nat) : Prop :=
  ∀ symbol body, becomes symbol body →
    body = [symbol] ∨ (height [symbol] = 0 ∧ IsBracketed body ∧ depth body ≤ d)

/-- Every beginning of the new word is by no more than the bound above a beginning of the old one, and
never below it. -/
theorem Rewrites.exists_prefix {becomes : Char → Word → Prop} {d : Nat} {u v : Word}
    (h : Rewrites becomes u v) (hkeeps : KeepsBrackets becomes d) :
    height v = height u ∧
      ∀ p, p <+: v → ∃ q, q <+: u ∧ height q ≤ height p ∧ height p ≤ height q + d := by
  induction h with
  | nil =>
      refine ⟨rfl, fun p hp => ⟨[], List.prefix_rfl, ?_⟩⟩
      rw [List.prefix_nil.mp hp]
      simp
  | @cons symbol body u v hbody _ ih =>
      obtain ⟨hheight, hprefix⟩ := ih
      have hsame : height body = height [symbol] := by
        rcases hkeeps symbol body hbody with rfl | ⟨hzero, hbracketed, _⟩
        · rfl
        · rw [hzero, (isBracketed_iff.mp hbracketed).2]
      refine ⟨by rw [height_append, hheight, hsame, height_cons symbol u], fun p hp => ?_⟩
      rcases prefix_append_cases hp with hp | ⟨q, hq, rfl⟩
      · rcases hkeeps symbol body hbody with rfl | ⟨_, hbracketed, hdepth⟩
        · exact ⟨p, hp.trans (List.prefix_append [symbol] u), le_rfl, by omega⟩
        · refine ⟨[], List.nil_prefix, ?_, ?_⟩
          · exact (isBracketed_iff.mp hbracketed).1 p hp
          · simpa using depth_le_iff.mp hdepth p hp
      · obtain ⟨q', hq', hlow, hhigh⟩ := hprefix q hq
        refine ⟨symbol :: q', (List.prefix_cons_inj symbol).mpr hq', ?_⟩
        rw [height_append, hsame, height_cons symbol q']
        omega

/-- Brackets still match after a pass, and the word is deeper by no more than the bound. -/
theorem Rewrites.isBracketed {becomes : Char → Word → Prop} {d : Nat} {u v : Word}
    (h : Rewrites becomes u v) (hkeeps : KeepsBrackets becomes d) (hu : IsBracketed u) :
    IsBracketed v ∧ depth v ≤ depth u + d := by
  obtain ⟨hheight, hprefix⟩ := h.exists_prefix hkeeps
  obtain ⟨hnonneg, hzero⟩ := isBracketed_iff.mp hu
  refine ⟨isBracketed_iff.mpr ⟨fun p hp => ?_, by rw [hheight, hzero]⟩,
    depth_le_iff.mpr fun p hp => ?_⟩
  · obtain ⟨q, hq, hlow, _⟩ := hprefix p hp
    exact (hnonneg q hq).trans hlow
  · obtain ⟨q, hq, _, hhigh⟩ := hprefix p hp
    have hle := depth_le_iff.mp le_rfl q hq
    push_cast
    omega

/-! ## Whole expansions -/

variable {α : Type}

namespace GrammarConfig

/-- The depth of the deepest body. -/
def bodyDepth (c : GrammarConfig α) : Nat :=
  ((c.rules.entries.flatMap (·.2)).map fun p => depth p.body).foldr max 0

/-- Brackets match in the starting word and in all bodies, and no rule and no style takes a bracket
for something else. -/
structure IsBracketed (c : GrammarConfig α) : Prop where
  start : Roadworks.IsBracketed c.start
  bodies : ∀ e ∈ c.rules.entries, ∀ p ∈ e.2, Roadworks.IsBracketed p.body
  rules : c.rules.get? '[' = none ∧ c.rules.get? ']' = none
  styles : c.styleSymbols.get? '[' = none ∧ c.styleSymbols.get? ']' = none

theorem depth_le_bodyDepth {c : GrammarConfig α} {e : Char × List (Production α)}
    (he : e ∈ c.rules.entries) {p : Production α} (hp : p ∈ e.2) : depth p.body ≤ c.bodyDepth := by
  refine foldr_max_le_iff.mp le_rfl _ (List.mem_map_of_mem ?_)
  exact List.mem_flatMap.mpr ⟨e, he, hp⟩

theorem IsBracketed.keepsBrackets {c : GrammarConfig α} (h : c.IsBracketed)
    (eligible : Production α → Prop) : KeepsBrackets (c.IsReplacement eligible) c.bodyDepth := by
  intro symbol body hbody
  rw [IsReplacement] at hbody
  cases hrules : c.rules.get? symbol with
  | none =>
      rw [hrules] at hbody
      exact .inl hbody
  | some ps =>
      rw [hrules] at hbody
      obtain ⟨p, hp, _, rfl⟩ := hbody
      have hmem : (symbol, ps) ∈ c.rules.entries := Dictionary.mem_entries_iff.mpr hrules
      refine .inr ⟨height_eq_zero ?_ ?_, h.bodies _ hmem p hp, depth_le_bodyDepth hmem hp⟩
      · exact ne_of_apply_ne c.rules.get? (by simp [hrules, h.rules.1])
      · exact ne_of_apply_ne c.rules.get? (by simp [hrules, h.rules.2])

variable [Scalar α]

theorem IsBracketed.wordAfter {c : GrammarConfig α} (h : c.IsBracketed) {g : Grammar α}
    (hg : c.CompilesTo g) (source : Nat → UInt64) (n : Nat) :
    Roadworks.IsBracketed (g.wordAfter source n) ∧
      depth (g.wordAfter source n) ≤ depth c.start + n * c.bodyDepth := by
  induction n with
  | zero =>
      have hstart : g.wordAfter source 0 = c.start := hg.start_eq
      rw [hstart]
      exact ⟨h.start, by omega⟩
  | succ n ih =>
      have hrewrites := Grammar.rewrites_wordAfter (hg.isReplacement_rewriteSymbol source) n
      obtain ⟨hbracketed, hdepth⟩ := hrewrites.isBracketed (h.keepsBrackets _) ih.1
      refine ⟨hbracketed, hdepth.trans ?_⟩
      rw [Nat.succ_mul]
      omega

/-- Brackets match in every expansion, and it is by no more than the deepest body deeper for every
iteration. -/
theorem IsBracketed.expandWith {c : GrammarConfig α} (h : c.IsBracketed) {source : Nat → UInt64}
    {word : Word} (hword : c.expandWith source = .ok word) :
    Roadworks.IsBracketed word ∧
      depth word ≤ depth c.start + c.iterations.toInt.toNat * c.bodyDepth := by
  obtain ⟨g, hg, rfl⟩ := expandWith_eq_ok_iff.mp hword
  have hcompiles := Grammar.compilesTo_of_ofConfig hg
  rw [← hcompiles.iterations_eq]
  exact h.wordAfter hcompiles source g.iterations

end GrammarConfig

end Roadworks
