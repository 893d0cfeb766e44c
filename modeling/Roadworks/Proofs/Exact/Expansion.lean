import Roadworks.Proofs.Exact.Choice
import Roadworks.Proofs.Grammar.Substitution
/-! # Only relative positive weights matter

With exact weights a random word chooses a candidate of positive weight. Candidates of weight zero and
a common factor of all weights change no choice, and where all candidates of positive weight have one
body there is nothing to choose. -/

namespace Roadworks

namespace GrammarConfig

/-- The configuration with other candidates for a symbol. -/
def withCandidates {α : Type} (c : GrammarConfig α) (symbol : Char) (ps : List (Production α)) :
    GrammarConfig α :=
  { c with rules := c.rules.insert symbol ps }

/-- The second configuration keeps one candidate of positive weight for every symbol that has any. -/
structure KeepsOne (c d : GrammarConfig ℝ) : Prop where
  start_eq : d.start = c.start
  iterations_eq : d.iterations = c.iterations
  rules_eq (symbol : Char) : match c.rules.get? symbol with
    | none => d.rules.get? symbol = none
    | some ps => ∃ p ∈ ps, 0 < p.weight ∧ d.rules.get? symbol = some [p]

variable {c : GrammarConfig ℝ}

/-! ## Compiling with exact weights -/

theorem check_of_get? (hvalid : c.validateGrammar = .ok ()) {symbol : Char}
    {ps : List (Production ℝ)} (hrules : c.rules.get? symbol = some ps) :
    checkProductions symbol ps = .ok () :=
  validateGrammar_eq_ok hvalid (symbol, ps) (Dictionary.mem_entries_iff.mpr hrules)

/-- Exact weights that pass their check have a finite sum, so nothing stands in the way. -/
theorem exists_ofConfig_eq_ok_real (hvalid : c.validateGrammar = .ok ()) :
    ∃ g, Grammar.ofConfig c = .ok g := by
  refine exists_ofConfig_of_isChoosable (fun e _ hcheck => ?_) hvalid
  obtain ⟨choice, hchoice, _⟩ := exists_ofWeights_chosen hcheck
  exact ⟨choice, hchoice⟩

/-- A symbol becomes the body of the chosen candidate, and a random word is used where there are
several. -/
theorem CompilesTo.rewriteSymbol_eq {g : Grammar ℝ} (h : c.CompilesTo g) {symbol : Char}
    {ps : List (Production ℝ)} (hrules : c.rules.get? symbol = some ps) (source : Nat → UInt64)
    (position : Nat) : g.rewriteSymbol source position symbol =
      (((chosen ps (source position)).map (·.body)).getD [],
        if ps.length = 1 then position else position + 1) := by
  have hcheck := check_of_get? h.valid hrules
  by_cases hsingle : ps.length = 1
  · obtain ⟨p, rfl⟩ := List.length_eq_one_iff.mp hsingle
    obtain ⟨q, hq, _, hchosen⟩ := exists_chosen_eq_some hcheck (source position)
    rw [List.mem_singleton.mp hq] at hchosen
    rw [h.rewriteSymbol_of_single hrules, hchosen, if_pos hsingle]
    rfl
  · have hps : ∀ p, ps ≠ [p] := fun p hp => hsingle (by rw [hp]; rfl)
    obtain ⟨choice, hchoice, hrewrite⟩ := h.exists_rewriteSymbol_eq hrules hps
    obtain ⟨choice', hchoice', hchosen⟩ := exists_ofWeights_chosen hcheck
    obtain rfl : choice' = choice := Except.ok.inj (hchoice'.symm.trans hchoice)
    rw [hrewrite, if_neg hsingle, ← hchosen, List.getD_eq_getElem?_getD, List.getElem?_map]

/-- A symbol is replaced by the body of a candidate of positive weight. -/
theorem CompilesTo.isReplacement_positive {g : Grammar ℝ} (h : c.CompilesTo g)
    (source : Nat → UInt64) (position : Nat) (symbol : Char) :
    c.IsReplacement (fun p => 0 < p.weight) symbol (g.rewriteSymbol source position symbol).1 := by
  rw [IsReplacement]
  cases hrules : c.rules.get? symbol with
  | none => rw [h.rewriteSymbol_of_none hrules]
  | some ps =>
      obtain ⟨p, hp, hpositive, hchosen⟩ :=
        exists_chosen_eq_some (check_of_get? h.valid hrules) (source position)
      rw [h.rewriteSymbol_eq hrules, hchosen]
      exact ⟨p, hp, hpositive, rfl⟩

/-! ## Other candidates for a symbol -/

theorem get?_withCandidates (c : GrammarConfig ℝ) (symbol other : Char)
    (ps : List (Production ℝ)) : (c.withCandidates symbol ps).rules.get? other =
      if other == symbol then some ps else c.rules.get? other :=
  Dictionary.get?_insert c.rules symbol other ps

theorem validateGrammar_withCandidates (hvalid : c.validateGrammar = .ok ()) {symbol : Char}
    {ps : List (Production ℝ)} (hcheck : checkProductions symbol ps = .ok ()) :
    (c.withCandidates symbol ps).validateGrammar = .ok () := by
  obtain ⟨hstart, _, hiterations, _⟩ := validateGrammar_eq_ok_iff.mp hvalid
  refine validateGrammar_eq_ok_iff.mpr ⟨hstart, ?_, hiterations, ?_⟩
  · have hget := get?_withCandidates c symbol symbol ps
    rw [beq_self_eq_true, if_pos rfl] at hget
    exact List.ne_nil_of_mem (Dictionary.mem_entries_iff.mpr hget)
  · rintro ⟨other, qs⟩ hmem
    rw [Dictionary.mem_entries_iff, get?_withCandidates] at hmem
    split at hmem
    · next heq =>
        cases hmem
        rw [beq_iff_eq.mp heq]
        exact hcheck
    · exact check_of_get? hvalid hmem

/-- Candidates that are chosen alike, and use random words alike, give the same expansion. -/
theorem expandWith_withCandidates (hvalid : c.validateGrammar = .ok ()) {symbol : Char}
    {ps qs : List (Production ℝ)} (hrules : c.rules.get? symbol = some ps)
    (hcheck : checkProductions symbol qs = .ok ())
    (hsame : ∀ word, (chosen qs word).map (·.body) = (chosen ps word).map (·.body))
    (hlength : qs.length = 1 ↔ ps.length = 1) (source : Nat → UInt64) :
    (c.withCandidates symbol qs).expandWith source = c.expandWith source := by
  obtain ⟨g, hg⟩ := exists_ofConfig_eq_ok_real hvalid
  obtain ⟨g', hg'⟩ := exists_ofConfig_eq_ok_real (validateGrammar_withCandidates hvalid hcheck)
  have hcompiles := Grammar.compilesTo_of_ofConfig hg
  have hcompiles' := Grammar.compilesTo_of_ofConfig hg'
  have hrewrite : ∀ position other, g'.rewriteSymbol source position other =
      g.rewriteSymbol source position other := by
    intro position other
    have hget := get?_withCandidates c symbol other qs
    by_cases hother : other = symbol
    · subst hother
      rw [beq_self_eq_true, if_pos rfl] at hget
      rw [hcompiles.rewriteSymbol_eq hrules, hcompiles'.rewriteSymbol_eq hget, hsame]
      simp only [hlength]
    · rw [beq_eq_false_iff_ne.mpr hother, if_neg Bool.false_ne_true] at hget
      cases hold : c.rules.get? other with
      | none =>
          rw [hcompiles.rewriteSymbol_of_none hold, hcompiles'.rewriteSymbol_of_none (hget.trans hold)]
      | some rs =>
          rw [hcompiles.rewriteSymbol_eq hold, hcompiles'.rewriteSymbol_eq (hget.trans hold)]
  have hword : g'.wordAfter source g'.iterations = g.wordAfter source g.iterations := by
    rw [Grammar.wordAfter, Grammar.wordAfter, Grammar.iterate_congr hrewrite, hcompiles.start_eq,
      hcompiles'.start_eq, hcompiles.iterations_eq, hcompiles'.iterations_eq]
    rfl
  rw [expandWith_eq_ok_iff.mpr ⟨g, hg, rfl⟩]
  exact expandWith_eq_ok_iff.mpr ⟨g', hg', hword⟩

/-! ## One candidate instead of several -/

/-- All candidates of positive weight that a symbol has share one body. -/
def SharesBodies (c : GrammarConfig ℝ) : Prop :=
  ∀ symbol ps, c.rules.get? symbol = some ps →
    ∃ body, ∀ p ∈ ps, 0 < p.weight → p.body = body

namespace KeepsOne

variable {d : GrammarConfig ℝ}

theorem exists_get?_eq (h : c.KeepsOne d) {symbol : Char} {qs : List (Production ℝ)}
    (hrules : d.rules.get? symbol = some qs) : ∃ ps p, c.rules.get? symbol = some ps ∧ p ∈ ps ∧
      0 < p.weight ∧ qs = [p] := by
  have hsymbol := h.rules_eq symbol
  cases hold : c.rules.get? symbol with
  | none =>
      rw [hold] at hsymbol
      exact absurd (hsymbol.symm.trans hrules) (by simp)
  | some ps =>
      rw [hold] at hsymbol
      obtain ⟨p, hp, hpositive, hkept⟩ := hsymbol
      exact ⟨ps, p, rfl, hp, hpositive, Option.some.inj (hrules.symm.trans hkept)⟩

theorem isDeterministic (h : c.KeepsOne d) : d.IsDeterministic := by
  rintro ⟨symbol, qs⟩ hmem
  obtain ⟨_, p, _, _, _, rfl⟩ := h.exists_get?_eq (Dictionary.mem_entries_iff.mp hmem)
  rfl

theorem validateGrammar (h : c.KeepsOne d) (hvalid : c.validateGrammar = .ok ()) :
    d.validateGrammar = .ok () := by
  obtain ⟨hstart, hentries, hiterations, _⟩ := validateGrammar_eq_ok_iff.mp hvalid
  refine validateGrammar_eq_ok_iff.mpr ⟨by rwa [h.start_eq], ?_, by rwa [h.iterations_eq], ?_⟩
  · obtain ⟨⟨symbol, ps⟩, hmem⟩ := List.exists_mem_of_ne_nil _ hentries
    have hsymbol := h.rules_eq symbol
    rw [Dictionary.mem_entries_iff.mp hmem] at hsymbol
    obtain ⟨p, _, _, hkept⟩ := hsymbol
    exact List.ne_nil_of_mem (Dictionary.mem_entries_iff.mpr hkept)
  · rintro ⟨symbol, qs⟩ hmem
    obtain ⟨_, p, _, _, hpositive, rfl⟩ := h.exists_get?_eq (Dictionary.mem_entries_iff.mp hmem)
    refine checkProductions_eq_ok_iff_real.mpr ⟨?_, p, List.mem_singleton.mpr rfl, hpositive⟩
    simpa using hpositive.le

/-- Where bodies are shared, it does not matter which candidate is chosen. -/
theorem fst_rewriteSymbol (h : c.KeepsOne d) (hshares : c.SharesBodies) {g : Grammar ℝ}
    (hg : c.CompilesTo g) (source : Nat → UInt64) (position : Nat) (symbol : Char) :
    (g.rewriteSymbol source position symbol).1 = d.substitute symbol := by
  have hchosen := hg.isReplacement_positive source position symbol
  have hsymbol := h.rules_eq symbol
  rw [IsReplacement] at hchosen
  rw [substitute]
  cases hrules : c.rules.get? symbol with
  | none =>
      rw [hrules] at hchosen hsymbol
      rw [hsymbol, hchosen]
  | some ps =>
      rw [hrules] at hchosen hsymbol
      obtain ⟨p, hp, hpositive, hbody⟩ := hchosen
      obtain ⟨q, hq, hpositive', hkept⟩ := hsymbol
      obtain ⟨body, hshared⟩ := hshares symbol ps hrules
      rw [hkept, ← hbody, hshared p hp hpositive]
      exact (hshared q hq hpositive').symm

theorem expandWith_eq (h : c.KeepsOne d) (hvalid : c.validateGrammar = .ok ())
    (hshares : c.SharesBodies) (source source' : Nat → UInt64) :
    d.expandWith source' = c.expandWith source := by
  obtain ⟨g, hg⟩ := exists_ofConfig_eq_ok_real hvalid
  have hcompiles := Grammar.compilesTo_of_ofConfig hg
  rw [h.isDeterministic.expandWith_eq (h.validateGrammar hvalid), h.start_eq, h.iterations_eq]
  exact (expandWith_eq_substituted hg (h.fst_rewriteSymbol hshares hcompiles source)).symm

end KeepsOne

/-! ## The whole expansion -/

/-- The words between the iterations: each comes from the one before by replacing every symbol that has
candidates with the body of one of positive weight. -/
theorem exists_words_eq (hvalid : c.validateGrammar = .ok ()) (source : Nat → UInt64) :
    ∃ words : Nat → Word, words 0 = c.start ∧
      (∀ k, Rewrites (c.IsReplacement fun p => 0 < p.weight) (words k) (words (k + 1))) ∧
      (∀ n : Int32, 0 ≤ n → (c.restarted c.start n).expandWith source = .ok (words n.toInt.toNat)) := by
  obtain ⟨g, hg⟩ := exists_ofConfig_eq_ok_real hvalid
  have hcompiles := Grammar.compilesTo_of_ofConfig hg
  refine ⟨g.wordAfter source, hcompiles.start_eq,
    Grammar.rewrites_wordAfter (hcompiles.isReplacement_positive source), fun n hn => ?_⟩
  have hstart : c.start ≠ [] := (validateGrammar_eq_ok_iff.mp hvalid).1
  refine expandWith_eq_ok_iff.mpr ⟨_, ofConfig_restarted hg hstart hn, ?_⟩
  rw [← hcompiles.start_eq]
  exact g.wordAfter_withIterations source _ _

/-- Only relative positive weights matter. Every symbol that has candidates is replaced by the body of
one of positive weight; among several candidates, others of weight zero can be inserted and all weights
can be multiplied by a positive factor without changing the expansion; and where all candidates of
positive weight that a symbol has share one body, one of them is enough, whatever the random words
are. -/
theorem expandWith_weights (hvalid : c.validateGrammar = .ok ()) :
    (∀ source, ∃ words : Nat → Word, words 0 = c.start ∧
      (∀ k, Rewrites (c.IsReplacement fun p => 0 < p.weight) (words k) (words (k + 1))) ∧
      (∀ n : Int32, 0 ≤ n → (c.restarted c.start n).expandWith source = .ok (words n.toInt.toNat)) ∧
      c.expandWith source = .ok (words c.iterations.toInt.toNat)) ∧
    (∀ symbol ps qs, c.rules.get? symbol = some ps → 2 ≤ ps.length → Diluted ps qs →
      ∀ source, (c.withCandidates symbol qs).expandWith source = c.expandWith source) ∧
    (∀ symbol ps k, c.rules.get? symbol = some ps → 0 < k →
      ∀ source, (c.withCandidates symbol (ps.map (·.scaled k))).expandWith source =
        c.expandWith source) ∧
    (c.SharesBodies → ∀ d, c.KeepsOne d →
      ∀ source source', d.expandWith source' = c.expandWith source) := by
  refine ⟨fun source => ?_, ?_, ?_, fun hshares d h => h.expandWith_eq hvalid hshares⟩
  · obtain ⟨words, hstart, hrewrites, hwords⟩ := exists_words_eq hvalid source
    have hiterations := (validateGrammar_eq_ok_iff.mp hvalid).2.2.1
    exact ⟨words, hstart, hrewrites, hwords, hwords _ (Int32.not_lt.mp hiterations)⟩
  · intro symbol ps qs hrules hlength hdiluted
    have hcheck := check_of_get? hvalid hrules
    refine expandWith_withCandidates hvalid hrules (hdiluted.checkProductions hcheck)
      (fun word => ?_) ?_
    · rw [hdiluted.chosen_eq (weightSum_pos hcheck).le]
    · have hle := hdiluted.sublist.length_le
      omega
  · intro symbol ps k hrules hk
    have hcheck := check_of_get? hvalid hrules
    refine expandWith_withCandidates hvalid hrules (checkProductions_scaled hk hcheck)
      (fun word => ?_) (by rw [List.length_map])
    rw [chosen_scaled hk, Option.map_map]
    rfl

end GrammarConfig

open GrammarConfig

/-- A crossing that is never taken, and two candidates of different weight with one body. -/
noncomputable def lopsided : GrammarConfig ℝ :=
  { GrammarConfig.default.withProductions
      [('X', ⟨0, ['A']⟩), ('X', ⟨3, ['F', 'X']⟩), ('X', ⟨1, ['F', 'X']⟩)] with
    start := ['X', '+', 'X'], iterations := 2 }

/-- The same streets with the body as the only candidate. -/
noncomputable def straightened : GrammarConfig ℝ :=
  { GrammarConfig.default.withProductions [('X', ⟨3, ['F', 'X']⟩)] with
    start := ['X', '+', 'X'], iterations := 2 }

/-- A seed that is never asked for, candidates that are never chosen, and doubled weights. -/
theorem expandWith_lopsided :
    lopsided.validateGrammar = .ok () ∧
      lopsided.expandWith (ChaCha.ofSeed 7) = .ok "FFX+FFX".toList ∧
      (lopsided.withCandidates 'X' [⟨0, ['B']⟩, ⟨0, ['A']⟩, ⟨3, ['F', 'X']⟩, ⟨1, ['F', 'X']⟩,
        ⟨0, []⟩]).expandWith (ChaCha.ofSeed 7) = .ok "FFX+FFX".toList ∧
      (lopsided.withCandidates 'X' [⟨2 * 0, ['A']⟩, ⟨2 * 3, ['F', 'X']⟩,
        ⟨2 * 1, ['F', 'X']⟩]).expandWith (ChaCha.ofSeed 7) = .ok "FFX+FFX".toList := by
  have hrules : lopsided.rules.get? 'X' = some [⟨0, ['A']⟩, ⟨3, ['F', 'X']⟩, ⟨1, ['F', 'X']⟩] := rfl
  have hentries : lopsided.rules.entries =
      [('X', [⟨0, ['A']⟩, ⟨3, ['F', 'X']⟩, ⟨1, ['F', 'X']⟩])] := rfl
  have hvalid : lopsided.validateGrammar = .ok () := by
    refine validateGrammar_eq_ok_iff.mpr ⟨by decide, by simp [hentries], by decide, ?_⟩
    rw [hentries, List.forall_mem_singleton, checkProductions_eq_ok_iff_real]
    simp
  have hshares : lopsided.SharesBodies := by
    rintro symbol ps hps
    obtain ⟨rfl, rfl⟩ : symbol = 'X' ∧ ps = _ := by
      simpa [hentries] using Dictionary.mem_entries_iff.mpr hps
    exact ⟨['F', 'X'], by simp⟩
  have hkeeps : lopsided.KeepsOne straightened := by
    have hkept : straightened.rules.entries = [('X', [⟨3, ['F', 'X']⟩])] := rfl
    refine ⟨rfl, rfl, fun symbol => ?_⟩
    rw [Dictionary.get?, Dictionary.get?, hentries, hkept, List.lookup_cons, List.lookup_cons]
    cases symbol == 'X' with
    | true => exact ⟨⟨3, ['F', 'X']⟩, by simp, three_pos, rfl⟩
    | false => rfl
  have hdiluted : Diluted [⟨0, ['A']⟩, ⟨3, ['F', 'X']⟩, ⟨1, ['F', 'X']⟩]
      [⟨0, ['B']⟩, ⟨0, ['A']⟩, ⟨3, ['F', 'X']⟩, ⟨1, ['F', 'X']⟩, ⟨0, []⟩] :=
    .insert rfl (.keep _ (.keep _ (.keep _ (.insert rfl .nil))))
  obtain ⟨_, hinsert, hscale, hone⟩ := expandWith_weights hvalid
  have hword : straightened.expandWith (ChaCha.ofSeed 0) = .ok "FFX+FFX".toList :=
    (hkeeps.isDeterministic.expandWith_eq (hkeeps.validateGrammar hvalid) _).trans rfl
  have hlopsided := (hone hshares straightened hkeeps (ChaCha.ofSeed 7) _).symm.trans hword
  refine ⟨hvalid, hlopsided, ?_, ?_⟩
  · exact (hinsert 'X' _ _ hrules (by decide) hdiluted _).trans hlopsided
  · exact (hscale 'X' _ 2 hrules two_pos _).trans hlopsided

end Roadworks
