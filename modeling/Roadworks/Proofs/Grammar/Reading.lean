import Roadworks.Proofs.Grammar.Lines
import Roadworks.Proofs.Grammar.Substitution
/-! # What rule texts are read to

The rules of a text are grouped by symbol, which comes to the same as adding them to a configuration
one after the other. -/

namespace Roadworks

open Text

variable {α : Type}

/-! ## Rules by symbol -/

/-- The candidates that a list of rules has for a symbol, in order. -/
def candidatesOf (listed : List (Char × Production α)) (symbol : Char) : List (Production α) :=
  (listed.filter (·.1 == symbol)).map Prod.snd

/-- The rules group a list: the symbols that occur in it have their candidates, in order. -/
def Rules.Groups (rules : Rules α) (listed : List (Char × Production α)) : Prop :=
  ∀ symbol ps, rules.get? symbol = some ps ↔ ps = candidatesOf listed symbol ∧ ps ≠ []

theorem Rules.Groups.get?_eq {rules : Rules α} {listed : List (Char × Production α)}
    (h : rules.Groups listed) (symbol : Char) :
    rules.get? symbol =
      if candidatesOf listed symbol = [] then none else some (candidatesOf listed symbol) := by
  split
  · next hnone =>
      rw [Option.eq_none_iff_forall_ne_some]
      intro ps hps
      obtain ⟨rfl, hne⟩ := (h symbol ps).mp hps
      exact hne hnone
  · next hsome => exact (h symbol _).mpr ⟨rfl, hsome⟩

/-- There is one way to group a list. -/
theorem Rules.Groups.eq {rules rules' : Rules α} {listed : List (Char × Production α)}
    (h : rules.Groups listed) (h' : rules'.Groups listed) : rules = rules' :=
  Dictionary.ext_get? fun symbol => by rw [h.get?_eq, h'.get?_eq]

theorem rules_withProductions (c : GrammarConfig α) (listed : List (Char × Production α)) :
    (c.withProductions listed).rules =
      listed.foldl (fun d (symbol, p) => Rules.add d symbol p) c.rules := by
  induction listed generalizing c with
  | nil => rfl
  | cons rule listed ih => exact ih (c.withProduction rule.1 rule.2)

/-- The rules after those of another grammar: a symbol has the candidates of both. -/
theorem get?_merge (rules more : Rules α) (symbol : Char) :
    (Rules.merge rules more).get? symbol =
      match more.get? symbol with
      | none => rules.get? symbol
      | some ps => some ((rules.get? symbol).getD [] ++ ps) := by
  obtain ⟨entries, hsorted⟩ := more
  simp only [Rules.merge, Dictionary.get?]
  -- Every key stands once in the entries, so only its own entry changes its value.
  induction entries generalizing rules with
  | nil => rfl
  | cons e entries ih =>
      obtain ⟨key, ps⟩ := e
      obtain ⟨hbefore, hrest⟩ := List.pairwise_cons.mp hsorted
      have hfirst := Dictionary.get?_alter rules key symbol fun old => old.getD [] ++ ps
      simp only [Dictionary.get?] at hfirst
      rw [List.foldl_cons, ih _ hrest, List.lookup_cons, hfirst]
      by_cases hkey : symbol = key
      · subst hkey
        rw [Dictionary.lookup_eq_none_of_lt hbefore]
        simp
      · rw [beq_eq_false_iff_ne.mpr hkey]
        rfl

variable [Scalar α]

/-- Adding the rules of a list one after the other groups them. -/
theorem groups_foldl_add (listed : List (Char × Production α)) :
    (listed.foldl (fun d (symbol, p) => Rules.add d symbol p) .empty : Rules α).Groups listed := by
  intro symbol ps
  have hget := GrammarConfig.get?_withProductions GrammarConfig.default listed symbol
  have hnone : (GrammarConfig.default (α := α)).rules.get? symbol = none := rfl
  rw [rules_withProductions, hnone] at hget
  change Dictionary.get? (listed.foldl _ .empty) symbol = _ at hget
  rw [hget, candidatesOf]
  cases listed.filter (·.1 == symbol) with
  | nil => simp
  | cons rule more =>
      simp only [Option.getD_none, List.nil_append, Option.some.injEq]
      constructor
      · rintro rfl
        exact ⟨rfl, List.cons_ne_nil _ _⟩
      · rintro ⟨rfl, _⟩
        rfl

omit [Scalar α] in
/-- Merging the rules that group a list comes to adding the list one after the other. -/
theorem merge_eq_withProductions (c : GrammarConfig α) {more : Rules α}
    {listed : List (Char × Production α)} (h : more.Groups listed) :
    { c with rules := Rules.merge c.rules more } = c.withProductions listed := by
  have hrules : Rules.merge c.rules more = (c.withProductions listed).rules := by
    refine Dictionary.ext_get? fun symbol => ?_
    rw [get?_merge, h.get?_eq, GrammarConfig.get?_withProductions, candidatesOf]
    cases listed.filter (·.1 == symbol) <;> rfl
  rw [hrules, ← GrammarConfig.withProductions_eq]

/-! ## Texts -/

theorem Rules.read_eq (text : String) :
    Rules.read (α := α) text =
      (readLines 1 (bareLines text.toList)).map fun rules =>
        rules.foldl (fun d (symbol, p) => Rules.add d symbol p) .empty := by
  rw [Rules.read, bareLines, readLines_linesOf]

theorem Rules.exists_read_eq_ok_iff {text : String} :
    (∃ rules : Rules α, Rules.read text = .ok rules) ↔
      ∀ line ∈ bareLines text.toList, ∃ held : Option (Char × Production α), HoldsRule line held := by
  rw [← exists_forall₂_holdsRule_iff, Rules.read_eq]
  constructor
  · rintro ⟨rules, hrules⟩
    cases hread : readLines (α := α) 1 (bareLines text.toList) with
    | error e =>
        rw [hread] at hrules
        cases hrules
    | ok listed =>
        obtain ⟨held, hheld, _⟩ := readLines_eq_ok_iff.mp hread
        exact ⟨held, hheld⟩
  · rintro ⟨held, hheld⟩
    rw [readLines_of_forall₂ hheld]
    exact ⟨_, rfl⟩

/-- A text whose lines are in form is read to the grouping of their rules. -/
theorem Rules.read_eq_ok_iff {text : String} {held : List (Option (Char × Production α))}
    (h : List.Forall₂ HoldsRule (bareLines text.toList) held) {rules : Rules α} :
    Rules.read text = .ok rules ↔ rules.Groups held.reduceOption := by
  rw [Rules.read_eq, readLines_of_forall₂ h, Except.map, Except.ok.injEq]
  constructor
  · rintro rfl
    exact groups_foldl_add _
  · exact (groups_foldl_add _).eq

theorem Rules.read_eq_error_iff {text : String} {e : ConfigError α} :
    Rules.read text = .error e ↔
      ∃ k fault, BreaksFirstAt α (bareLines text.toList) k fault ∧
        e = .malformedRule (k + 1) fault := by
  have hmap : Rules.read text = .error e ↔
      readLines (α := α) 1 (bareLines text.toList) = .error e := by
    rw [Rules.read_eq]
    cases readLines (α := α) 1 (bareLines text.toList) <;> simp [Except.map]
  rw [hmap, readLines_eq_error_iff]
  simp only [Nat.add_comm 1]

theorem GrammarConfig.withRules_eq_ok {text : String} {held : List (Option (Char × Production α))}
    (h : List.Forall₂ HoldsRule (bareLines text.toList) held) (c : GrammarConfig α) :
    c.withRules text = .ok (c.withProductions held.reduceOption) := by
  obtain ⟨rules, hrules⟩ : ∃ rules : Rules α, rules.Groups held.reduceOption :=
    ⟨_, groups_foldl_add _⟩
  rw [withRules, (Rules.read_eq_ok_iff h).mpr hrules, Except.map,
    merge_eq_withProductions c hrules]

/-- A text is read exactly when its lines are in the form of rules, and then to the grouping of their
rules. Otherwise its first line that is not is reported, counted from one, with the first thing that is
wrong with it. A configuration takes the rules of a text as if they were added one after the other,
and fails on a text as reading it does. -/
theorem Rules.read_outcome (text : String) :
    ((∃ rules : Rules α, Rules.read text = .ok rules) ↔
      ∀ line ∈ bareLines text.toList, ∃ held : Option (Char × Production α), HoldsRule line held) ∧
    (∀ held : List (Option (Char × Production α)),
      List.Forall₂ HoldsRule (bareLines text.toList) held →
        (∀ rules : Rules α, Rules.read text = .ok rules ↔ rules.Groups held.reduceOption) ∧
        ∀ c : GrammarConfig α, c.withRules text = .ok (c.withProductions held.reduceOption)) ∧
    (∀ e : ConfigError α, Rules.read text = .error e ↔
      ∃ k fault, BreaksFirstAt α (bareLines text.toList) k fault ∧ e = .malformedRule (k + 1) fault) ∧
    ∀ (c : GrammarConfig α) (e : ConfigError α),
      c.withRules text = .error e ↔ Rules.read text = .error e := by
  refine ⟨exists_read_eq_ok_iff, fun held h => ?_, fun e => read_eq_error_iff, fun c e => ?_⟩
  · exact ⟨fun rules => read_eq_ok_iff h, GrammarConfig.withRules_eq_ok h⟩
  · rw [GrammarConfig.withRules]
    cases Rules.read (α := α) text <;> simp [Except.map]

/-- A text with a comment, a blank line, a weight, a symbol that is half an arrow, and both line
ends. -/
def annotated : String := "X -> F[+X] # a branch\r\n\n--> (0.25) F X\r\nX -> ( 3 )(F)\n"

theorem read_annotated :
    (∃ rules : Rules Float, Rules.read annotated = .ok rules ∧
      rules.get? 'X' = some [⟨1.0, "F[+X]".toList⟩, ⟨3.0, "(F)".toList⟩] ∧
      rules.get? '-' = some [⟨0.25, "FX".toList⟩] ∧ rules.get? 'F' = none) ∧
    GrammarConfig.withRules (α := Float) .default annotated =
      .ok (GrammarConfig.default.withProductions [('X', ⟨1.0, "F[+X]".toList⟩),
        ('-', ⟨0.25, "FX".toList⟩), ('X', ⟨3.0, "(F)".toList⟩)]) ∧
    Rules.read (α := Float) "F -> F\nFG -> F" = .error (.malformedRule 2 .notOneSymbol) := by
  have hlines : List.Forall₂ HoldsRule (bareLines annotated.toList)
      [some ('X', (⟨1.0, "F[+X]".toList⟩ : Production Float)), none,
        some ('-', ⟨0.25, "FX".toList⟩), some ('X', ⟨3.0, "(F)".toList⟩)] := by
    refine .cons ?_ (.cons ?_ (.cons ?_ (.cons ?_ .nil))) <;> exact readRule_eq_ok_iff.mp rfl
  have hbroken : BreaksFirstAt Float (bareLines "F -> F\nFG -> F".toList) 1 .notOneSymbol := by
    refine ⟨["F -> F".toList], "FG -> F".toList, [], by rfl, rfl, fun line hline => ?_,
      readRule_eq_error_iff.mp rfl⟩
    rw [List.mem_singleton.mp hline]
    exact ⟨some ('F', ⟨1.0, ['F']⟩), readRule_eq_ok_iff.mp rfl⟩
  obtain ⟨_, hread, _, _⟩ := Rules.read_outcome (α := Float) annotated
  obtain ⟨_, _, herror, _⟩ := Rules.read_outcome (α := Float) "F -> F\nFG -> F"
  obtain ⟨hrules, hconfig⟩ := hread _ hlines
  have hok := (hrules _).mpr (groups_foldl_add _)
  exact ⟨⟨_, hok, by rfl, by rfl, by rfl⟩, hconfig _, (herror _).mpr ⟨1, _, hbroken, rfl⟩⟩

end Roadworks
