import Roadworks.Proofs.Grammar.Weights
/-! # What a configuration is compiled to

A configuration is checked and then compiled symbol by symbol. Once the check has passed, only a sum
of weights that is infinite stands in the way. -/

namespace Roadworks

/-! ## One result for every entry -/

namespace Grammar

theorem exists_mapM_eq_ok {ε β γ : Type} {f : β → Except ε γ} {l : List β}
    (h : ∀ b ∈ l, ∃ c, f b = .ok c) : ∃ cs, l.mapM f = .ok cs := by
  induction l with
  | nil => exact ⟨[], rfl⟩
  | cons b l ih =>
      obtain ⟨hb, hl⟩ := List.forall_mem_cons.mp h
      obtain ⟨c, hc⟩ := hb
      obtain ⟨cs, hcs⟩ := ih hl
      rw [List.mapM_cons, hc]
      exact ⟨c :: cs, bind_eq_ok_iff.mpr ⟨c, rfl, bind_eq_ok_iff.mpr ⟨cs, hcs, rfl⟩⟩⟩

/-- Working on all entries ends as checking them one after the other does. -/
theorem map_mapM_eq {ε β γ : Type} {f : β → Except ε γ} {check : β → Except ε Unit} {l : List β}
    (h : ∀ b ∈ l, (f b).map (fun _ => ()) = check b) :
    (l.mapM f).map (fun _ => ()) = l.forM check := by
  induction l with
  | nil => rfl
  | cons b l ih =>
      obtain ⟨hb, hl⟩ := List.forall_mem_cons.mp h
      rw [List.mapM_cons, List.forM, ← hb, ← ih hl]
      cases f b with
      | error e => rfl
      | ok c => cases l.mapM f <;> rfl

theorem exists_eq_error_of_forM {ε β : Type} {f : β → Except ε PUnit} {l : List β} {e : ε}
    (h : l.forM f = .error e) : ∃ b ∈ l, f b = .error e := by
  induction l with
  | nil => cases h
  | cons b l ih =>
      rw [List.forM] at h
      cases hb : f b with
      | error e' =>
          rw [hb] at h
          cases h
          exact ⟨b, List.mem_cons_self, hb⟩
      | ok _ =>
          rw [hb] at h
          obtain ⟨d, hd, hfault⟩ := ih h
          exact ⟨d, List.mem_cons_of_mem b hd, hfault⟩

/-- The results of all entries under their keys: a key has the result of its value. -/
theorem lookup_of_mapM_eq_ok {ε κ ν ρ : Type} [BEq κ] [LawfulBEq κ] {f : κ → ν → Except ε ρ}
    {l : List (κ × ν)} {results : List (κ × ρ)}
    (h : (l.mapM fun e => (f e.1 e.2).map fun r => (e.1, r)) = .ok results) (k : κ) :
    (results.lookup k).map .ok = (l.lookup k).map (f k) := by
  induction l generalizing results with
  | nil =>
      cases h
      rfl
  | cons e l ih =>
      obtain ⟨j, v⟩ := e
      rw [List.mapM_cons, bind_eq_ok_iff] at h
      obtain ⟨first, hfirst, h⟩ := h
      obtain ⟨rest, hrest, hresults⟩ := bind_eq_ok_iff.mp h
      cases hresults
      cases hr : f j v with
      | error e =>
          rw [hr] at hfirst
          cases hfirst
      | ok r =>
          rw [hr] at hfirst
          cases hfirst
          rw [List.lookup_cons, List.lookup_cons]
          by_cases hk : k = j
          · subst hk
            simp [hr]
          · rw [beq_eq_false_iff_ne.mpr hk]
            exact ih hrest

end Grammar

variable {α : Type} [Scalar α]

/-! ## The compiled grammar -/

/-- The grammar has what the configuration says, and for every symbol what its candidates were
prepared to. -/
structure GrammarConfig.CompilesTo (c : GrammarConfig α) (g : Grammar α) : Prop where
  valid : c.validateGrammar = .ok ()
  start_eq : g.start = c.start
  iterations_eq : g.iterations = c.iterations.toInt.toNat
  seed_eq : g.seed = c.seed
  lookup_eq (symbol : Char) : (g.replacements.lookup symbol).map .ok =
    (c.rules.get? symbol).map (Grammar.replacement symbol)

namespace Grammar

/-- A symbol with what its candidates are prepared to. -/
def prepared (e : Char × List (Production α)) : Except (Fault α) (Char × Replacement α) :=
  (replacement e.1 e.2).map fun r => (e.1, r)

theorem ofConfig_of_valid {c : GrammarConfig α} (h : c.validateGrammar = .ok ()) :
    ofConfig c = (c.rules.entries.mapM prepared).map
      fun replacements => ⟨c.start, replacements, c.iterations.toInt.toNat, c.seed⟩ := by
  rw [ofConfig, h]
  rfl

/-- A configuration is compiled if it passes its check and all its candidates can be prepared. -/
theorem ofConfig_eq_ok_iff {c : GrammarConfig α} {g : Grammar α} :
    ofConfig c = .ok g ↔ c.validateGrammar = .ok () ∧
      ∃ replacements, c.rules.entries.mapM prepared = .ok replacements ∧
        g = ⟨c.start, replacements, c.iterations.toInt.toNat, c.seed⟩ := by
  cases hvalid : c.validateGrammar with
  | error e => simp [ofConfig, hvalid]
  | ok _ =>
      rw [ofConfig_of_valid hvalid]
      cases c.rules.entries.mapM prepared <;> simp [Except.map, eq_comm]

theorem compilesTo_of_ofConfig {c : GrammarConfig α} {g : Grammar α} (h : ofConfig c = .ok g) :
    c.CompilesTo g := by
  obtain ⟨hvalid, replacements, hreplacements, rfl⟩ := ofConfig_eq_ok_iff.mp h
  exact ⟨hvalid, rfl, rfl, rfl, lookup_of_mapM_eq_ok hreplacements⟩

theorem exists_ofConfig_eq_ok {c : GrammarConfig α} (hvalid : c.validateGrammar = .ok ())
    (h : ∀ e ∈ c.rules.entries, ∃ r, replacement e.1 e.2 = .ok r) : ∃ g, ofConfig c = .ok g := by
  have hprepared : ∀ e ∈ c.rules.entries, ∃ r, prepared e = .ok r := by
    intro e he
    obtain ⟨r, hr⟩ := h e he
    exact ⟨(e.1, r), by rw [prepared, hr, Except.map]⟩
  obtain ⟨replacements, hreplacements⟩ := exists_mapM_eq_ok hprepared
  exact ⟨_, ofConfig_eq_ok_iff.mpr ⟨hvalid, replacements, hreplacements, rfl⟩⟩

theorem exists_replacement_eq_ok (symbol : Char) {ps : List (Production α)}
    (h : ∃ choice, Weighted.ofWeights (ps.map (·.weight)) = .ok choice) :
    ∃ r, replacement symbol ps = .ok r := by
  obtain ⟨choice, hchoice⟩ := h
  match ps, hchoice with
  | [], hchoice => cases hchoice
  | [p], _ => exact ⟨.fixed p.body, rfl⟩
  | p :: q :: rest, hchoice =>
      simp only [replacement, hchoice]
      exact ⟨_, rfl⟩

end Grammar

/-- Rules whose weights allow a choice once they have passed their check. -/
def GrammarConfig.IsChoosable (c : GrammarConfig α) : Prop :=
  ∀ e ∈ c.rules.entries, checkProductions e.1 e.2 = .ok () →
    ∃ choice, Weighted.ofWeights (e.2.map (·.weight)) = .ok choice

theorem GrammarConfig.IsBounded.isChoosable {c : GrammarConfig Float} (h : c.IsBounded) :
    c.IsChoosable :=
  fun e he hcheck => exists_ofWeights_of_check hcheck (h e he)

theorem GrammarConfig.exists_ofConfig_of_isChoosable {c : GrammarConfig α}
    (hchoosable : c.IsChoosable) (h : c.validateGrammar = .ok ()) :
    ∃ g, Grammar.ofConfig c = .ok g :=
  Grammar.exists_ofConfig_eq_ok h fun e he =>
    Grammar.exists_replacement_eq_ok e.1 (hchoosable e he (validateGrammar_eq_ok h e he))

/-- A grammar that passes its check can be expanded. -/
theorem GrammarConfig.exists_expand_eq_ok {c : GrammarConfig α} (hchoosable : c.IsChoosable)
    (h : c.validateGrammar = .ok ()) : ∃ word, c.expand = .ok word := by
  obtain ⟨g, hg⟩ := exists_ofConfig_of_isChoosable hchoosable h
  exact ⟨g.expand, by rw [expand, hg]; rfl⟩

/-! ## Sums of doubles -/

namespace GrammarConfig

/-- Checks that the sum of weights is not infinite. -/
def checkSum (symbol : Char) (ps : List (Production Float)) : Except (Grammar.Fault Float) Unit :=
  if Weighted.Overflows (ps.map (·.weight)) then .error (.unboundedWeights symbol) else .ok ()

/-- Checks the sums of weights, in the order of the symbols. -/
def checkSums (c : GrammarConfig Float) : Except (Grammar.Fault Float) Unit :=
  c.rules.entries.forM fun e => checkSum e.1 e.2

theorem checkSums_eq_ok_iff {c : GrammarConfig Float} : c.checkSums = .ok () ↔ c.IsBounded := by
  rw [checkSums, forM_eq_ok_iff, IsBounded]
  refine forall₂_congr fun e _ => ?_
  rw [checkSum]
  split <;> simp [*]

/-- An infinite sum of finite weights has several of them, and stands in the way of a choice. -/
theorem replacement_of_overflows {symbol : Char} {ps : List (Production Float)}
    (h : checkProductions symbol ps = .ok ()) (hover : Weighted.Overflows (ps.map (·.weight))) :
    Grammar.replacement symbol ps = .error (.unboundedWeights symbol) := by
  obtain ⟨hnonneg, _, hzero⟩ := total_of_check h
  have hinfinite : Scalar.isFinite (Weighted.total (ps.map (·.weight))) = false :=
    Binary64.isFinite_eq_false_of_isInf hover.1
  obtain ⟨hne, hgood, _⟩ := checkProductions_eq_ok_iff.mp h
  cases ps with
  | nil => exact absurd rfl hne
  | cons p rest =>
      cases rest with
      | nil =>
          have hfinite : Scalar.isFinite p.weight = true := (hgood p List.mem_cons_self).1
          rw [List.map_singleton, Weighted.total, List.foldl_nil, hfinite] at hinfinite
          contradiction
      | cons q rest =>
          have hoverflow : Weighted.ofWeights ((p :: q :: rest).map (·.weight)) = .error .overflow :=
            (Weighted.ofWeights_eq hnonneg hzero).trans (if_neg (Bool.eq_false_iff.mp hinfinite))
          simp only [Grammar.replacement, hoverflow]

/-- Candidates that pass their check are prepared unless the sum of their weights is infinite. -/
theorem map_prepared {e : Char × List (Production Float)}
    (h : checkProductions e.1 e.2 = .ok ()) :
    (Grammar.prepared e).map (fun _ => ()) = checkSum e.1 e.2 := by
  rw [Grammar.prepared, checkSum]
  split
  · next hover =>
      rw [replacement_of_overflows h hover]
      rfl
  · next hbounded =>
      obtain ⟨r, hr⟩ := Grammar.exists_replacement_eq_ok e.1 (exists_ofWeights_of_check h hbounded)
      rw [hr]
      rfl

/-- What becomes of a configuration is decided by its check and by the sums of its weights. -/
theorem map_ofConfig_eq (c : GrammarConfig Float) :
    (Grammar.ofConfig c).map (fun _ => ()) =
      c.validateGrammar.mapError .refused >>= fun _ => c.checkSums := by
  cases hvalid : c.validateGrammar with
  | error e =>
      rw [Grammar.ofConfig, hvalid]
      rfl
  | ok _ =>
      have hchecks := validateGrammar_eq_ok hvalid
      calc (Grammar.ofConfig c).map (fun _ => ())
        _ = (c.rules.entries.mapM Grammar.prepared).map fun _ => () := by
          rw [Grammar.ofConfig_of_valid hvalid]
          cases c.rules.entries.mapM Grammar.prepared <;> rfl
        _ = c.checkSums := Grammar.map_mapM_eq fun e he => map_prepared (hchecks e he)

theorem checkSums_ne_refused {c : GrammarConfig Float} (e : ConfigError Float) :
    c.checkSums ≠ .error (.refused e) := by
  intro h
  obtain ⟨entry, _, hentry⟩ := Grammar.exists_eq_error_of_forM h
  rw [checkSum] at hentry
  split at hentry <;> cases hentry

end GrammarConfig

namespace Grammar

/-- Compiling reports what the check reports. What passes the check is compiled, unless the weights of
a symbol sum up to infinity; no other fault is found after the check. -/
theorem ofConfig_outcome (c : GrammarConfig Float) :
    (ofConfig c).map (fun _ => ()) =
        c.validateGrammar.mapError .refused >>= (fun _ => c.checkSums) ∧
      (∀ e, ofConfig c = .error (.refused e) ↔ c.validateGrammar = .error e) ∧
      ((∃ g, ofConfig c = .ok g) ↔ c.validateGrammar = .ok () ∧ c.IsBounded) := by
  have hmap := c.map_ofConfig_eq
  refine ⟨hmap, fun e => ?_, ?_⟩
  · cases hvalid : c.validateGrammar with
    | error e' => simp [ofConfig, hvalid]
    | ok _ =>
        have hsums : (ofConfig c).map (fun _ => ()) = c.checkSums := by rw [hmap, hvalid]; rfl
        refine ⟨fun h => ?_, fun h => by cases h⟩
        rw [h] at hsums
        exact absurd hsums.symm (GrammarConfig.checkSums_ne_refused e)
  · rw [← GrammarConfig.checkSums_eq_ok_iff]
    cases hvalid : c.validateGrammar with
    | error e => simp [ofConfig, hvalid]
    | ok _ =>
        have hsums : (ofConfig c).map (fun _ => ()) = c.checkSums := by rw [hmap, hvalid]; rfl
        rw [← hsums]
        cases ofConfig c <;> simp [Except.map]

end Grammar

/-- Two candidates, each of which may have its weight, with weights that sum up to infinity. -/
def tremendous : GrammarConfig Float :=
  (GrammarConfig.default.withProduction 'F' ⟨1e308, ['F']⟩).withProduction 'F' ⟨1e308, ['G']⟩

/-- Passing the check is not enough for being compiled. -/
theorem ofConfig_tremendous :
    tremendous.validateGrammar = .ok () ∧
      Grammar.ofConfig tremendous = .error (.unboundedWeights 'F') := by
  have hentries : tremendous.rules.entries = [('F', [⟨1e308, ['F']⟩, ⟨1e308, ['G']⟩])] := rfl
  have hcheck : GrammarConfig.checkProductions 'F' [⟨1e308, ['F']⟩, ⟨(1e308 : Float), ['G']⟩] =
      .ok () := GrammarConfig.checkProductions_eq_ok_iff.mpr (by decide +kernel)
  have hvalid : tremendous.validateGrammar = .ok () := by
    refine GrammarConfig.validateGrammar_eq_ok_iff.mpr ⟨by decide, ?_, by decide, ?_⟩
    · simp [hentries]
    · simpa [hentries] using hcheck
  have hprepared := GrammarConfig.replacement_of_overflows hcheck (by decide +kernel)
  refine ⟨hvalid, ?_⟩
  rw [Grammar.ofConfig_of_valid hvalid, hentries, List.mapM_cons, Grammar.prepared, hprepared]
  rfl

end Roadworks
