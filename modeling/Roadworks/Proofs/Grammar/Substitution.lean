import Roadworks.Proofs.Grammar.Rewriting
/-! # Expansion without a choice

Where every symbol has at most one candidate, expansion is iterated substitution: it is done part by
part and pass by pass, and neither the random words nor the order of the rules matter. -/

namespace Roadworks

variable {α : Type}

/-! ## Substitution -/

/-- The word with every symbol substituted a number of times. -/
def substituted (f : Char → Word) (n : Nat) (word : Word) : Word :=
  (fun word => word.flatMap f)^[n] word

theorem substituted_append (f : Char → Word) (n : Nat) (u v : Word) :
    substituted f n (u ++ v) = substituted f n u ++ substituted f n v := by
  induction n generalizing u v with
  | zero => rfl
  | succ n ih =>
      simp only [substituted, Function.iterate_succ_apply] at ih ⊢
      rw [List.flatMap_append, ih]

theorem substituted_add (f : Char → Word) (n m : Nat) (word : Word) :
    substituted f (n + m) word = substituted f m (substituted f n word) := by
  rw [substituted, Nat.add_comm, Function.iterate_add_apply]
  rfl

theorem substituted_nil (f : Char → Word) (n : Nat) : substituted f n [] = [] :=
  Function.iterate_fixed List.flatMap_nil n

theorem substituted_perm (f : Char → Word) (n : Nat) {u v : Word} (h : u.Perm v) :
    (substituted f n u).Perm (substituted f n v) := by
  induction n generalizing u v with
  | zero => exact h
  | succ n ih =>
      simp only [substituted, Function.iterate_succ_apply] at ih ⊢
      exact ih (h.flatMap_right f)

namespace GrammarConfig

/-- Every symbol that has candidates has one. -/
def IsDeterministic (c : GrammarConfig α) : Prop := ∀ e ∈ c.rules.entries, e.2.length = 1

instance (c : GrammarConfig α) : Decidable c.IsDeterministic :=
  inferInstanceAs (Decidable (∀ e ∈ c.rules.entries, _))

/-- What a symbol becomes under its first candidate; without one it stays. -/
def substitute (c : GrammarConfig α) (symbol : Char) : Word :=
  match c.rules.get? symbol with
  | some (p :: _) => p.body
  | _ => [symbol]

theorem IsDeterministic.exists_eq {c : GrammarConfig α} (h : c.IsDeterministic) {symbol : Char}
    {ps : List (Production α)} (hrules : c.rules.get? symbol = some ps) : ∃ p, ps = [p] :=
  List.length_eq_one_iff.mp (h (symbol, ps) (Dictionary.mem_entries_iff.mpr hrules))

/-! ## Rules in another order -/

/-- The configuration with more candidates for symbols, one after the other. -/
def withProductions (c : GrammarConfig α) (added : List (Char × Production α)) : GrammarConfig α :=
  added.foldl (fun c (symbol, p) => c.withProduction symbol p) c

/-- A symbol has the candidates that it had and then those that are added for it. -/
theorem get?_withProductions (c : GrammarConfig α) (added : List (Char × Production α))
    (symbol : Char) :
    (c.withProductions added).rules.get? symbol =
      match added.filter (·.1 == symbol) with
      | [] => c.rules.get? symbol
      | more => some ((c.rules.get? symbol).getD [] ++ more.map Prod.snd) := by
  induction added generalizing c with
  | nil => rfl
  | cons r added ih =>
      obtain ⟨t, p⟩ := r
      have hfirst : (c.withProduction t p).rules.get? symbol =
          if symbol == t then some ((c.rules.get? t).getD [] ++ [p]) else c.rules.get? symbol :=
        Dictionary.get?_alter c.rules t symbol _
      change ((c.withProduction t p).withProductions added).rules.get? symbol = _
      rw [ih, hfirst]
      by_cases h : symbol = t
      · subst h
        cases hmore : added.filter (·.1 == symbol) <;> simp [hmore]
      · simp [h, Ne.symm h]

theorem withProductions_eq (c : GrammarConfig α) (added : List (Char × Production α)) :
    c.withProductions added = { c with rules := (c.withProductions added).rules } := by
  induction added generalizing c with
  | nil => rfl
  | cons r added ih => exact ih (c.withProduction r.1 r.2)

/-- Where every symbol is left with one candidate, the order in which they are added does not
matter. -/
theorem IsDeterministic.withProductions_perm {c : GrammarConfig α}
    {added added' : List (Char × Production α)} (h : (c.withProductions added).IsDeterministic)
    (hperm : added.Perm added') : c.withProductions added' = c.withProductions added := by
  have hrules : (c.withProductions added').rules = (c.withProductions added).rules := by
    refine Dictionary.ext_get? fun symbol => ?_
    have hfilter : (added.filter (·.1 == symbol)).Perm (added'.filter (·.1 == symbol)) :=
      hperm.filter _
    have hget := get?_withProductions c added symbol
    rw [hget, get?_withProductions]
    cases hadded : added.filter (·.1 == symbol) with
    | nil =>
        rw [hadded, List.nil_perm] at hfilter
        rw [hfilter]
    | cons r more =>
        rw [hadded] at hget hfilter
        obtain ⟨p, hp⟩ := h.exists_eq hget
        have hnone : more = [] := by
          have hlength := congrArg List.length hp
          simp only [List.length_append, List.length_map, List.length_cons, List.length_nil]
            at hlength
          exact List.eq_nil_of_length_eq_zero (by omega)
        rw [hnone, List.singleton_perm] at hfilter
        rw [hnone, ← hfilter]
  rw [withProductions_eq, hrules, ← withProductions_eq]

variable [Scalar α]

/-! ## Expansion -/

/-- A configuration without a choice is compiled once it passes its check, whatever its weights are. -/
theorem IsDeterministic.exists_ofConfig_eq_ok {c : GrammarConfig α} (h : c.IsDeterministic)
    (hvalid : c.validateGrammar = .ok ()) : ∃ g, Grammar.ofConfig c = .ok g := by
  refine Grammar.exists_ofConfig_eq_ok hvalid fun e he => ?_
  obtain ⟨p, hp⟩ := List.length_eq_one_iff.mp (h e he)
  rw [hp]
  exact ⟨.fixed p.body, rfl⟩

theorem CompilesTo.fst_rewriteSymbol {c : GrammarConfig α} {g : Grammar α} (hg : c.CompilesTo g)
    (h : c.IsDeterministic) (source : Nat → UInt64) (position : Nat) (symbol : Char) :
    (g.rewriteSymbol source position symbol).1 = c.substitute symbol := by
  rw [substitute]
  cases hrules : c.rules.get? symbol with
  | none => rw [hg.rewriteSymbol_of_none hrules]
  | some ps =>
      obtain ⟨p, rfl⟩ := h.exists_eq hrules
      rw [hg.rewriteSymbol_of_single hrules]

/-- Where what a symbol becomes does not depend on the position, the starting word is substituted in
every iteration. -/
theorem expandWith_eq_substituted {c : GrammarConfig α} {g : Grammar α}
    (hg : Grammar.ofConfig c = .ok g) {source : Nat → UInt64} {f : Char → Word}
    (h : ∀ position symbol, (g.rewriteSymbol source position symbol).1 = f symbol) :
    c.expandWith source = .ok (substituted f c.iterations.toInt.toNat c.start) := by
  have hcompiles := Grammar.compilesTo_of_ofConfig hg
  refine expandWith_eq_ok_iff.mpr ⟨g, hg, ?_⟩
  rw [Grammar.wordAfter_eq_iterate h, hcompiles.start_eq, hcompiles.iterations_eq]
  rfl

theorem IsDeterministic.expandWith_eq {c : GrammarConfig α} (h : c.IsDeterministic)
    (hvalid : c.validateGrammar = .ok ()) (source : Nat → UInt64) :
    c.expandWith source = .ok (substituted c.substitute c.iterations.toInt.toNat c.start) := by
  obtain ⟨g, hg⟩ := h.exists_ofConfig_eq_ok hvalid
  have hcompiles := Grammar.compilesTo_of_ofConfig hg
  exact expandWith_eq_substituted hg (hcompiles.fst_rewriteSymbol h source)

theorem IsDeterministic.expandWith_restarted {c : GrammarConfig α} (h : c.IsDeterministic)
    (hvalid : c.validateGrammar = .ok ()) {u : Word} {n : Int32} (hu : u ≠ []) (hn : 0 ≤ n)
    (source : Nat → UInt64) : (c.restarted u n).expandWith source =
      .ok (substituted c.substitute n.toInt.toNat u) :=
  expandWith_eq (c := c.restarted u n) h (validateGrammar_restarted hvalid hu hn) source

/-- Expansion without a choice is iterated substitution. For a word `u` and a number `n` of iterations
there is one expansion `E n u`, whatever the seed and the random words are and in whatever order the
rules were added. A word in two parts is expanded part by part, iterations can be split into two runs,
and how often a symbol occurs in the end depends only on how often symbols occur in the beginning. -/
theorem deterministic_expansion {c : GrammarConfig α} (hvalid : c.validateGrammar = .ok ())
    (hone : c.IsDeterministic) : ∃ E : Int32 → Word → Word,
    (∀ (n : Int32) (u : Word), E n u = (fun word => word.flatMap c.substitute)^[n.toInt.toNat] u) ∧
    (∀ (n : Int32) (u : Word), 0 ≤ n → u ≠ [] →
      (∀ seed, { c.restarted u n with seed := seed }.expand = .ok (E n u)) ∧
      (∀ source, (c.restarted u n).expandWith source = .ok (E n u)) ∧
      ∀ (base : GrammarConfig α) (added added' : List (Char × Production α)),
        base.withProductions added = c → added.Perm added' →
        ∀ source, ((base.withProductions added').restarted u n).expandWith source = .ok (E n u)) ∧
    (∀ (n : Int32) (u v : Word), 0 ≤ n → u ≠ [] → v ≠ [] → E n (u ++ v) = E n u ++ E n v) ∧
    (∀ (n m k : Int32) (u : Word), 0 ≤ n → 0 ≤ m → k.toInt = n.toInt + m.toInt → u ≠ [] →
      E k u = if E n u = [] then [] else E m (E n u)) ∧
    ∀ (n : Int32) (u v : Word), 0 ≤ n → u ≠ [] → v ≠ [] →
      (∀ symbol, u.count symbol = v.count symbol) →
        ∀ symbol, (E n u).count symbol = (E n v).count symbol := by
  refine ⟨fun n u => substituted c.substitute n.toInt.toNat u, fun _ _ => rfl, ?_, ?_, ?_, ?_⟩
  · intro n u hn hu
    have hexpand := hone.expandWith_restarted hvalid hu hn
    refine ⟨fun seed => ?_, hexpand, ?_⟩
    · rw [expand_eq_expandWith]
      exact IsDeterministic.expandWith_eq (c := { c.restarted u n with seed := seed }) hone
        (validateGrammar_restarted hvalid hu hn) _
    · intro base added added' hadded hperm source
      subst hadded
      rw [hone.withProductions_perm hperm]
      exact hexpand source
  · intro n u v _ _ _
    exact substituted_append _ _ u v
  · intro n m k u hn hm hk _
    have hcounts : k.toInt.toNat = n.toInt.toNat + m.toInt.toNat := by
      rw [Int32.le_iff_toInt_le] at hn hm
      have hzero : (0 : Int32).toInt = 0 := rfl
      omega
    simp only [hcounts, substituted_add]
    split
    · next hnil => rw [hnil, substituted_nil]
    · rfl
  · intro n u v _ _ _ hcount
    exact (substituted_perm _ _ (List.perm_iff_count.mpr hcount)).count_eq

end GrammarConfig

/-- A street that grows by a branch in every iteration, and a mark that is erased. -/
def sprouting : GrammarConfig Float :=
  GrammarConfig.default.withProductions [('F', ⟨1.0, "F[+FA]".toList⟩), ('A', ⟨1.0, []⟩)]

/-- The rules in the other order, a mark that vanishes, and three iterations in two runs. -/
theorem expansion_sprouting :
    ∃ E : Int32 → Word → Word, E 1 ['A'] = [] ∧ E 1 ['F', 'A'] = E 1 ['F'] ∧
      E 3 ['F'] = E 2 "F[+FA]".toList ∧
      (∀ source, ((GrammarConfig.default.withProductions
        [('A', ⟨(1.0 : Float), []⟩), ('F', ⟨1.0, "F[+FA]".toList⟩)]).restarted ['F'] 3).expandWith
          source = .ok (E 3 ['F'])) ∧
      (E 3 ['F']).count 'F' = 8 ∧ (E 3 "FA".toList).count 'F' = (E 3 "AF".toList).count 'F' := by
  have hvalid : sprouting.validateGrammar = .ok () := rfl
  have hone : sprouting.IsDeterministic := by decide
  obtain ⟨E, hE, hexpand, happend, hadd, hcount⟩ := GrammarConfig.deterministic_expansion hvalid hone
  have hmark : E 1 ['A'] = [] := by rw [hE]; rfl
  have hfirst : E 1 ['F'] = "F[+FA]".toList := by rw [hE]; rfl
  refine ⟨E, hmark, ?_, ?_, ?_, ?_, ?_⟩
  · have hsplit := happend 1 ['F'] ['A'] (by decide) (by decide) (by decide)
    rwa [hmark, List.append_nil] at hsplit
  · have hruns := hadd 1 2 3 ['F'] (by decide) (by decide) (by decide) (by decide)
    rw [hfirst] at hruns
    exact hruns
  · exact (hexpand 3 ['F'] (by decide) (by decide)).2.2 .default _ _ rfl (List.Perm.swap _ _ _)
  · rw [hE]
    decide +kernel
  · exact hcount 3 "FA".toList "AF".toList (by decide) (by decide) (by decide)
      (List.perm_iff_count.mp (List.Perm.swap _ _ _)) 'F'

end Roadworks
