import Roadworks.Proofs.Grammar.Brackets
import Roadworks.Proofs.Turtle.Branches
/-! # Branches of a bracketed word

Where brackets match and the memory is as deep as the word, there is room for every push and a saved
state for every pop. A larger memory would change nothing. -/

namespace Roadworks

variable {α : Type}

namespace Interpreter

variable {i : Interpreter α} {word : Word}

/-! ## Brackets as pushes and pops -/

/-- In a balanced word, the open pushes are those that have not met their pop. -/
theorem IsBalanced.length_openPushes (h : i.IsBalanced word) {u : Word} (hu : u <+: word) :
    (i.openPushes u).length + u.countP (fun c => (i.op c).pops) =
      u.countP fun c => (i.op c).pushes := by
  have hnone : i.openPushes [] = [] ++ [] := rfl
  obtain ⟨top, hopen, hcount⟩ := exists_openPushes_append hnone fun v hv => by
    have hprefix := ((List.mem_inits v u).mp hv).trans hu
    simpa using h.pops_le v ((List.mem_inits v word).mpr hprefix)
  rw [List.nil_append, List.append_nil] at hopen
  rw [hopen, hcount, List.length_nil, Nat.zero_add]

/-- The opening bracket is the only symbol that pushes and the closing one the only one that pops. -/
structure KnowsBrackets (i : Interpreter α) : Prop where
  pushes_eq : (fun symbol => (i.op symbol).pushes) = (· == '[')
  pops_eq : (fun symbol => (i.op symbol).pops) = (· == ']')

theorem KnowsBrackets.isBalanced (h : i.KnowsBrackets) (hword : IsBracketed word) :
    i.IsBalanced word := by
  refine ⟨fun u hu => ?_, ?_⟩
  · rw [h.pushes_eq, h.pops_eq]
    exact hword.closing_le u hu
  · rw [h.pushes_eq, h.pops_eq]
    exact hword.closing_eq

theorem KnowsBrackets.length_openPushes_le (h : i.KnowsBrackets) (hword : IsBracketed word)
    {u : Word} (hu : u <+: word) : (i.openPushes u).length ≤ depth word := by
  have hcount := (h.isBalanced hword).length_openPushes hu
  rw [h.pushes_eq, h.pops_eq] at hcount
  have hheight : height u = (i.openPushes u).length := by
    rw [height, List.count, List.count]
    omega
  have hle := depth_le_iff.mp le_rfl u hu
  omega

theorem KnowsBrackets.withOp (h : i.KnowsBrackets) {symbol : Char} (hopening : symbol ≠ '[')
    (hclosing : symbol ≠ ']') (style : String) :
    (i.withOp symbol (.setStyle style)).KnowsBrackets := by
  refine ⟨funext fun c => ?_, funext fun c => ?_⟩
  · by_cases hc : c = symbol
    · simp [Interpreter.withOp, hc, hopening, TurtleOp.pushes]
    · simpa [Interpreter.withOp, hc] using congrFun h.pushes_eq c
  · by_cases hc : c = symbol
    · simp [Interpreter.withOp, hc, hclosing, TurtleOp.pops]
    · simpa [Interpreter.withOp, hc] using congrFun h.pops_eq c

theorem KnowsBrackets.foldl_withOp (h : i.KnowsBrackets) {entries : List (Char × String)}
    (hentries : ∀ e ∈ entries, e.1 ≠ '[' ∧ e.1 ≠ ']') :
    (entries.foldl (fun i (symbol, style) => i.withOp symbol (.setStyle style))
      i).KnowsBrackets := by
  induction entries generalizing i with
  | nil => exact h
  | cons e entries ih =>
      obtain ⟨⟨hopening, hclosing⟩, hrest⟩ := List.forall_mem_cons.mp hentries
      exact ih (h.withOp hopening hclosing e.2) hrest

/-- The interpreter with another limit to its memory. -/
def withMemory (i : Interpreter α) (limit : Nat) : Interpreter α := { i with maxStackDepth := limit }

theorem foldl_withOp_withMemory (i : Interpreter α) (limit : Nat)
    (entries : List (Char × String)) :
    entries.foldl (fun i (symbol, style) => i.withOp symbol (.setStyle style)) (i.withMemory limit) =
      (entries.foldl (fun i (symbol, style) => i.withOp symbol (.setStyle style))
        i).withMemory limit := by
  induction entries generalizing i with
  | nil => rfl
  | cons e entries ih => exact ih (i.withOp e.1 (.setStyle e.2))

variable [Scalar α]

theorem knowsBrackets_of_ofConfig {c : GrammarConfig α} (hi : ofConfig c = .ok i)
    (hopening : c.styleSymbols.get? '[' = none) (hclosing : c.styleSymbols.get? ']' = none) :
    i.KnowsBrackets := by
  have hentries : ∀ e ∈ c.styleSymbols.entries, e.1 ≠ '[' ∧ e.1 ≠ ']' := by
    intro e he
    have hstyle : c.styleSymbols.get? e.1 = some e.2 := Dictionary.mem_entries_iff.mp he
    exact ⟨ne_of_apply_ne c.styleSymbols.get? (by simp [hstyle, hopening]),
      ne_of_apply_ne c.styleSymbols.get? (by simp [hstyle, hclosing])⟩
  rw [ofConfig] at hi
  cases hvalid : c.validateTurtle with
  | error e =>
      rw [hvalid] at hi
      cases hi
  | ok _ =>
      rw [hvalid] at hi
      cases hi
      refine KnowsBrackets.foldl_withOp ⟨funext fun symbol => ?_, funext fun symbol => ?_⟩ hentries
      · dsimp only
        unfold standardOp
        split <;> simp_all [TurtleOp.pushes]
      · dsimp only
        unfold standardOp
        split <;> simp_all [TurtleOp.pops]

/-- The limit to the memory is only taken over. -/
theorem ofConfig_withMemory (c : GrammarConfig α) (limit : UInt64) :
    ofConfig { c with maxStackDepth := limit } =
      (ofConfig c).map (·.withMemory limit.toNat) := by
  have hchecks : { c with maxStackDepth := limit }.validateTurtle = c.validateTurtle := rfl
  rw [ofConfig, ofConfig, hchecks]
  cases c.validateTurtle with
  | error e => rfl
  | ok _ =>
      simp only [Except.map, ← foldl_withOp_withMemory]
      rfl

theorem maxStackDepth_of_ofConfig {c : GrammarConfig α} (hi : ofConfig c = .ok i) :
    i.maxStackDepth = c.maxStackDepth.toNat := by
  have hsame := ofConfig_withMemory c c.maxStackDepth
  rw [hi] at hsame
  exact congrArg Interpreter.maxStackDepth (Except.ok.inj hsame)

/-! ## Words that stay within the memory -/

theorem walk_concat (i : Interpreter α) (u : Word) (c : Char) :
    i.walk i.begin (u ++ [c]) = i.advance (i.walk i.begin u) (i.op c) :=
  walk_append ..

/-- Every push saves the state of the turtle, every pop goes back to the one that was saved last, and
at the end of the word there is none left. -/
structure LosesNothing (i : Interpreter α) (word : Word) : Prop where
  push_saves : ∀ u c, u ++ [c] <+: word → i.op c = .push →
    i.walk i.begin (u ++ [c]) = { i.walk i.begin u with
      stack := (i.walk i.begin u).turtle :: (i.walk i.begin u).stack }
  pop_restores : ∀ u c, u ++ [c] <+: word → i.op c = .pop →
    ∃ t rest, (i.walk i.begin u).stack = t :: rest ∧
      i.walk i.begin (u ++ [c]) = { i.walk i.begin u with turtle := t, stack := rest }
  stack_eq : (i.walk i.begin word).stack = []

/-- A turtle loses nothing on a balanced word if its memory holds all pushes that are open at once. -/
theorem IsBalanced.losesNothing (h : i.IsBalanced word)
    (hroom : ∀ u, u <+: word → (i.openPushes u).length ≤ i.maxStackDepth) :
    i.LosesNothing word := by
  refine ⟨fun u c hu hc => ?_, fun u c hu hc => ?_, ?_⟩
  · have hlength := (i.remembers_walk u).length_stack
    have hfits := hroom _ hu
    rw [openPushes_concat, hc, TurtleOp.nest, List.length_cons] at hfits
    rw [walk_concat, hc, advance, if_pos (by omega)]
  · have hlength := (i.remembers_walk u).length_stack
    have hdropped := (i.remembers_walk u).dropped_eq
    have hbefore : u <+: word := (List.prefix_append u [c]).trans hu
    have hfits := hroom u hbefore
    -- The pop is one of those that do not outnumber the pushes.
    have hopen : 0 < (i.openPushes u).length := by
      have hcount := h.length_openPushes hbefore
      have hpops := h.pops_le _ ((List.mem_inits _ _).mpr hu)
      rw [List.countP_append, List.countP_append, List.countP_singleton, List.countP_singleton,
        hc] at hpops
      change _ + 1 ≤ _ + 0 at hpops
      omega
    cases hstack : (i.walk i.begin u).stack with
    | nil =>
        rw [hstack, List.length_nil] at hlength
        omega
    | cons t rest =>
        refine ⟨t, rest, rfl, ?_⟩
        rw [walk_concat, hc, advance, if_neg (by omega), hstack]
  · have hopen : i.openPushes word = [] := h.openPushes_append []
    rw [(i.remembers_walk word).stack_eq, hopen, List.drop_nil, List.map_nil]

/-- A turtle that knows brackets loses nothing on a bracketed word that is not deeper than its
memory. -/
theorem KnowsBrackets.losesNothing (h : i.KnowsBrackets) (hword : IsBracketed word)
    (hdepth : depth word ≤ i.maxStackDepth) : i.LosesNothing word :=
  (h.isBalanced hword).losesNothing fun _ hu => (h.length_openPushes_le hword hu).trans hdepth

/-! ## A larger memory -/

/-- Where nothing is lost, a larger memory leads to the same states. -/
theorem LosesNothing.advance_withMemory (h : i.LosesNothing word) {limit : Nat}
    (hlimit : i.maxStackDepth ≤ limit) {u : Word} {c : Char} (hu : u ++ [c] <+: word) :
    (i.withMemory limit).advance (i.walk i.begin u) (i.op c) =
      i.advance (i.walk i.begin u) (i.op c) := by
  cases hc : i.op c with
  | push =>
      have hsaves := h.push_saves u c hu hc
      rw [walk_concat, hc, advance] at hsaves
      split at hsaves
      · next hroom =>
          have hroom' : (i.walk i.begin u).stack.length < (i.withMemory limit).maxStackDepth :=
            Nat.lt_of_lt_of_le hroom hlimit
          rw [advance, advance, if_pos hroom, if_pos hroom']
      · exact absurd (congrArg Walk.stack hsaves).symm (List.cons_ne_self _ _)
  | draw | move | pop | turn _ | turnAround | setStyle _ | ignore => rfl

theorem LosesNothing.strokes_withMemory (h : i.LosesNothing word) {limit : Nat}
    (hlimit : i.maxStackDepth ≤ limit) {u v : Word} (hword : u ++ v = word) :
    (i.withMemory limit).strokes (i.walk i.begin u) v = i.strokes (i.walk i.begin u) v := by
  induction v generalizing u with
  | nil => rfl
  | cons c v ih =>
      have hnext : u ++ [c] ++ v = word := by rw [List.append_assoc, List.singleton_append, hword]
      have hrest := ih hnext
      rw [walk_concat] at hrest
      have hop : (i.withMemory limit).op c = i.op c := rfl
      have hstroke : (i.withMemory limit).stroke? (i.walk i.begin u) (i.op c) =
          i.stroke? (i.walk i.begin u) (i.op c) := by
        cases i.op c <;> rfl
      rw [strokes, strokes, hop, hstroke, h.advance_withMemory hlimit ⟨v, hnext⟩, hrest]

/-- Where nothing is lost, a larger memory draws the same. -/
theorem LosesNothing.interpret_withMemory (h : i.LosesNothing word) {limit : Nat}
    (hlimit : i.maxStackDepth ≤ limit) :
    (i.withMemory limit).interpret word = i.interpret word := by
  have hstrokes := h.strokes_withMemory hlimit (List.nil_append word)
  exact congrArg (fun strokes => segments strokes 0) hstrokes

end Interpreter

/-! ## Configurations -/

namespace GrammarConfig

/-- Brackets match in every expansion of a bracketed grammar, and every iteration makes it deeper by no
more than the deepest body. A turtle that remembers as many states as that bound loses no branch, and
it draws what it would draw with a larger memory. -/
theorem bracketed_expansion_keeps_branches {c : GrammarConfig Float} (hvalid : c.validate = .ok ())
    (h : c.IsBracketed) :
    (c.IsBounded → ∀ source, ∃ word, c.expandWith source = .ok word) ∧
      ∀ source word, c.expandWith source = .ok word →
        Roadworks.IsBracketed word ∧
        depth word ≤ depth c.start + c.iterations.toInt.toNat * c.bodyDepth ∧
        (depth c.start + c.iterations.toInt.toNat * c.bodyDepth ≤ c.maxStackDepth.toNat →
          ∃ i, Interpreter.ofConfig c = .ok i ∧ i.LosesNothing word ∧
            c.interpret word = .ok (i.interpret word) ∧
            ∀ limit, c.maxStackDepth ≤ limit →
              { c with maxStackDepth := limit }.interpret word = c.interpret word) := by
  obtain ⟨_, hgrammar, hturtle⟩ := bind_eq_ok_iff.mp hvalid
  refine ⟨fun hbounded source => ?_, fun source word hword => ?_⟩
  · obtain ⟨g, hg⟩ := exists_ofConfig_of_isChoosable hbounded.isChoosable hgrammar
    exact ⟨_, expandWith_eq_ok_iff.mpr ⟨g, hg, rfl⟩⟩
  obtain ⟨hbracketed, hdepth⟩ := h.expandWith hword
  refine ⟨hbracketed, hdepth, fun hroom => ?_⟩
  obtain ⟨i, hi⟩ : ∃ i, Interpreter.ofConfig c = .ok i := by
    rw [Interpreter.ofConfig, hturtle]
    exact ⟨_, rfl⟩
  have hmemory := Interpreter.maxStackDepth_of_ofConfig hi
  have hknows := Interpreter.knowsBrackets_of_ofConfig hi h.styles.1 h.styles.2
  have hkeeps := hknows.losesNothing hbracketed (by omega)
  have hdrawn : c.interpret word = .ok (i.interpret word) := by rw [interpret, hi, Except.map]
  refine ⟨i, hi, hkeeps, hdrawn, fun limit hlimit => ?_⟩
  have hmore : i.maxStackDepth ≤ limit.toNat := by
    rw [hmemory]
    exact UInt64.le_iff_toNat_le.mp hlimit
  rw [interpret, Interpreter.ofConfig_withMemory, hi, hdrawn, Except.map, Except.map,
    hkeeps.interpret_withMemory hmore]

end GrammarConfig

/-- Shoots that fork or bend, with just enough memory for two iterations. -/
def twigs : GrammarConfig Float :=
  { (GrammarConfig.default.withProduction 'X' ⟨3.0, "F[+X][-X]".toList⟩).withProduction 'X'
      ⟨1.0, "F[[X]-X]+X".toList⟩ with
    start := "[X]X".toList, iterations := 2, seed := some 7, maxStackDepth := 5 }

/-- A branch off the starting word and two iterations that each go two branches deeper. -/
theorem branches_of_twigs :
    ∃ word i, twigs.expand = .ok word ∧ IsBracketed word ∧ depth word ≤ 5 ∧
      Interpreter.ofConfig twigs = .ok i ∧ i.LosesNothing word ∧
      { twigs with maxStackDepth := 4096 }.interpret word = .ok (i.interpret word) := by
  have hvalid : twigs.validate = .ok () := rfl
  have hbracketed : twigs.IsBracketed :=
    ⟨by decide, by decide, ⟨rfl, rfl⟩, ⟨rfl, rfl⟩⟩
  have hbounded : twigs.IsBounded := by decide +kernel
  obtain ⟨hexists, hall⟩ := GrammarConfig.bracketed_expansion_keeps_branches hvalid hbracketed
  obtain ⟨word, hword⟩ := hexists hbounded (ChaCha.ofSeed 7)
  obtain ⟨hmatch, hdepth, hroom⟩ := hall _ word hword
  obtain ⟨i, hi, hkeeps, hdrawn, hmore⟩ := hroom (by decide)
  have hlarger := hmore 4096 (by decide)
  rw [hdrawn] at hlarger
  refine ⟨word, i, ?_, hmatch, hdepth, hi, hkeeps, hlarger⟩
  rw [GrammarConfig.expand_eq_expandWith]
  exact hword

end Roadworks
