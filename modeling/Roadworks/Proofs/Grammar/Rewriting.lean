import Roadworks.Proofs.Grammar.Compilation
/-! # Expansion pass by pass

In a pass every symbol of the word gives way to a word that it may become, and what it may become is
read off the rules. The random words decide which one it is and nothing else. -/

namespace Roadworks

variable {α : Type}

/-! ## Passes -/

/-- The second word comes from the first when every symbol gives way to one of the words that it may
become. -/
inductive Rewrites (becomes : Char → Word → Prop) : Word → Word → Prop where
  | nil : Rewrites becomes [] []
  | cons {symbol : Char} {body u v : Word} :
    becomes symbol body → Rewrites becomes u v → Rewrites becomes (symbol :: u) (body ++ v)

/-- Where no symbol has a choice, a pass is a substitution. -/
theorem Rewrites.eq_flatMap {f : Char → Word} {u v : Word}
    (h : Rewrites (fun symbol body => body = f symbol) u v) : v = u.flatMap f := by
  induction h with
  | nil => rfl
  | cons hbody _ ih => rw [List.flatMap_cons, hbody, ih]

/-- The word may take the place of a symbol: it is the body of an eligible candidate, or the symbol
itself where there are no candidates. -/
def GrammarConfig.IsReplacement (c : GrammarConfig α) (eligible : Production α → Prop)
    (symbol : Char) (body : Word) : Prop :=
  match c.rules.get? symbol with
  | none => body = [symbol]
  | some ps => ∃ p ∈ ps, eligible p ∧ p.body = body

/-- The configuration with another starting word and another number of iterations. -/
def GrammarConfig.restarted (c : GrammarConfig α) (start : Word) (iterations : Int32) :
    GrammarConfig α :=
  { c with start := start, iterations := iterations }

variable [Scalar α]

namespace Grammar

variable {g g' : Grammar α} {source : Nat → UInt64}

/-- The word after some iterations. -/
def wordAfter (g : Grammar α) (source : Nat → UInt64) (n : Nat) : Word :=
  (g.iterate source n (g.start, 0)).1

theorem rewrites_rewriteWord {becomes : Char → Word → Prop}
    (h : ∀ position symbol, becomes symbol (g.rewriteSymbol source position symbol).1)
    (position : Nat) (word : Word) :
    Rewrites becomes word (g.rewriteWord source position word).1 := by
  induction word generalizing position with
  | nil => exact .nil
  | cons symbol word ih => exact .cons (h position symbol) (ih _)

/-- From one iteration to the next the word is rewritten. -/
theorem rewrites_wordAfter {becomes : Char → Word → Prop}
    (h : ∀ position symbol, becomes symbol (g.rewriteSymbol source position symbol).1) (n : Nat) :
    Rewrites becomes (g.wordAfter source n) (g.wordAfter source (n + 1)) := by
  rw [wordAfter, wordAfter, iterate_add]
  exact rewrites_rewriteWord h _ _

/-- Where the random words do not matter, the word is substituted again and again. -/
theorem wordAfter_eq_iterate {f : Char → Word}
    (h : ∀ position symbol, (g.rewriteSymbol source position symbol).1 = f symbol) (n : Nat) :
    g.wordAfter source n = (fun word => word.flatMap f)^[n] g.start := by
  induction n with
  | zero => rfl
  | succ n ih => rw [Function.iterate_succ_apply', ← ih, (rewrites_wordAfter h n).eq_flatMap]

/-! ### Two grammars -/

theorem rewriteWord_congr
    (h : ∀ position symbol, g.rewriteSymbol source position symbol =
      g'.rewriteSymbol source position symbol) (position : Nat) (word : Word) :
    g.rewriteWord source position word = g'.rewriteWord source position word := by
  induction word generalizing position with
  | nil => rfl
  | cons symbol word ih => simp only [rewriteWord, h, ih]

/-- Grammars that rewrite every symbol alike rewrite words alike, and use the same random words. -/
theorem iterate_congr
    (h : ∀ position symbol, g.rewriteSymbol source position symbol =
      g'.rewriteSymbol source position symbol) (n : Nat) (state : Word × Nat) :
    g.iterate source n state = g'.iterate source n state := by
  induction n generalizing state with
  | zero => rfl
  | succ n ih => rw [iterate, iterate, rewriteWord_congr h, ih]

/-- The words between the iterations do not depend on how many iterations there are to be. -/
theorem wordAfter_withIterations (g : Grammar α) (source : Nat → UInt64) (n k : Nat) :
    { g with iterations := n }.wordAfter source k = g.wordAfter source k := by
  have hsame : ∀ position symbol, { g with iterations := n }.rewriteSymbol source position symbol =
      g.rewriteSymbol source position symbol := fun _ _ => rfl
  rw [wordAfter, wordAfter, iterate_congr hsame]

end Grammar

namespace GrammarConfig

/-! ## What the rules say about a symbol -/

namespace CompilesTo

variable {c : GrammarConfig α} {g : Grammar α} {symbol : Char}

theorem rewriteSymbol_of_none (h : c.CompilesTo g) (hrules : c.rules.get? symbol = none)
    (source : Nat → UInt64) (position : Nat) :
    g.rewriteSymbol source position symbol = ([symbol], position) := by
  have hlookup := h.lookup_eq symbol
  rw [hrules, Option.map_none, Option.map_eq_none_iff] at hlookup
  exact g.rewriteSymbol_of_lookup_eq_none source position hlookup

theorem exists_lookup_eq (h : c.CompilesTo g) {ps : List (Production α)}
    (hrules : c.rules.get? symbol = some ps) :
    ∃ r, Grammar.replacement symbol ps = .ok r ∧ g.replacements.lookup symbol = some r := by
  have hlookup := h.lookup_eq symbol
  rw [hrules, Option.map_some, Option.map_eq_some_iff] at hlookup
  obtain ⟨r, hr, hreplacement⟩ := hlookup
  exact ⟨r, hreplacement.symm, hr⟩

/-- A symbol with a single candidate becomes its body and uses no random word. -/
theorem rewriteSymbol_of_single (h : c.CompilesTo g) {p : Production α}
    (hrules : c.rules.get? symbol = some [p]) (source : Nat → UInt64) (position : Nat) :
    g.rewriteSymbol source position symbol = (p.body, position) := by
  obtain ⟨r, hr, hlookup⟩ := h.exists_lookup_eq hrules
  cases hr
  rw [Grammar.rewriteSymbol, hlookup]

/-- A symbol with several candidates becomes the body of a chosen one and uses one random word. -/
theorem exists_rewriteSymbol_eq (h : c.CompilesTo g) {ps : List (Production α)}
    (hrules : c.rules.get? symbol = some ps) (hps : ∀ p, ps ≠ [p]) :
    ∃ choice, Weighted.ofWeights (ps.map (·.weight)) = .ok choice ∧
      ∀ source position, g.rewriteSymbol source position symbol =
        ((ps.map (·.body)).getD (choice.choose (source position)) [], position + 1) := by
  obtain ⟨r, hr, hlookup⟩ := h.exists_lookup_eq hrules
  match ps, hps with
  | [p], hps => exact absurd rfl (hps p)
  | [], _ => cases hr
  | p :: q :: rest, _ =>
      cases hchoice : Weighted.ofWeights ((p :: q :: rest).map (·.weight)) with
      | error fault =>
          simp only [Grammar.replacement, hchoice] at hr
          cases fault <;> cases hr
      | ok choice =>
          simp only [Grammar.replacement, hchoice] at hr
          cases hr
          refine ⟨choice, rfl, fun source position => ?_⟩
          rw [Grammar.rewriteSymbol, hlookup]

/-- A symbol becomes what its rules say, whatever the random words are. -/
theorem isReplacement_rewriteSymbol (h : c.CompilesTo g) (source : Nat → UInt64) (position : Nat)
    (symbol : Char) :
    c.IsReplacement (fun _ => True) symbol (g.rewriteSymbol source position symbol).1 := by
  rw [IsReplacement]
  cases hrules : c.rules.get? symbol with
  | none => rw [h.rewriteSymbol_of_none hrules]
  | some ps =>
      by_cases hsingle : ∃ p, ps = [p]
      · obtain ⟨p, rfl⟩ := hsingle
        rw [h.rewriteSymbol_of_single hrules]
        exact ⟨p, List.mem_cons_self, trivial, rfl⟩
      · obtain ⟨choice, hchoice, hrewrite⟩ :=
          h.exists_rewriteSymbol_eq hrules fun p hp => hsingle ⟨p, hp⟩
        have hlt := Weighted.choose_lt_length hchoice (source position)
        rw [List.length_map] at hlt
        refine ⟨ps[choice.choose (source position)], List.getElem_mem hlt, trivial, ?_⟩
        rw [hrewrite, List.getD_eq_getElem _ _ (by rwa [List.length_map]), List.getElem_map]

end CompilesTo

/-! ## Expansions -/

/-- The expansion with random words from the given source. -/
def expandWith (c : GrammarConfig α) (source : Nat → UInt64) : Except (Grammar.Fault α) Word :=
  (Grammar.ofConfig c).map fun g => g.expandWith source

/-- The expansion takes its random words from the stream of the seed. -/
theorem expand_eq_expandWith (c : GrammarConfig α) :
    c.expand = c.expandWith (ChaCha.ofSeed (c.seed.getD 0)) := by
  rw [expand, expandWith]
  cases hg : Grammar.ofConfig c with
  | error fault => rw [Except.map, Except.map]
  | ok g =>
      have hseed : g.seed = c.seed := (Grammar.compilesTo_of_ofConfig hg).seed_eq
      rw [Except.map, Except.map, Grammar.expand, hseed]

theorem expandWith_eq_ok_iff {c : GrammarConfig α} {source : Nat → UInt64} {word : Word} :
    c.expandWith source = .ok word ↔
      ∃ g, Grammar.ofConfig c = .ok g ∧ g.wordAfter source g.iterations = word := by
  rw [expandWith]
  cases Grammar.ofConfig c with
  | error fault => simp [Except.map]
  | ok g => simp [Except.map, Grammar.expandWith, Grammar.wordAfter]

theorem validateGrammar_restarted {c : GrammarConfig α} (hvalid : c.validateGrammar = .ok ())
    {start : Word} {iterations : Int32} (hstart : start ≠ []) (hiterations : 0 ≤ iterations) :
    (c.restarted start iterations).validateGrammar = .ok () := by
  obtain ⟨_, hrules, _, hchecks⟩ := validateGrammar_eq_ok_iff.mp hvalid
  exact validateGrammar_eq_ok_iff.mpr ⟨hstart, hrules, Int32.not_lt.mpr hiterations, hchecks⟩

theorem ofConfig_restarted {c : GrammarConfig α} {g : Grammar α} (hg : Grammar.ofConfig c = .ok g)
    {start : Word} {iterations : Int32} (hstart : start ≠ []) (hiterations : 0 ≤ iterations) :
    Grammar.ofConfig (c.restarted start iterations) =
      .ok { g with start := start, iterations := iterations.toInt.toNat } := by
  obtain ⟨hvalid, replacements, hreplacements, rfl⟩ := Grammar.ofConfig_eq_ok_iff.mp hg
  exact Grammar.ofConfig_eq_ok_iff.mpr
    ⟨validateGrammar_restarted hvalid hstart hiterations, replacements, hreplacements, rfl⟩

end GrammarConfig

end Roadworks
