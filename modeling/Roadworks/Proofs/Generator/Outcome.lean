import Roadworks.Proofs.Grammar.Compilation
import Roadworks.Proofs.Network.Obtained
/-! # When something is generated

Every stage checks what it is given and works on whatever passes. What a stage makes always passes
the checks of the next one, so only the configuration decides whether something is generated. -/

namespace Roadworks

variable {α : Type} [Scalar α]

/-! ## The checks of the stages -/

/-- The checks of an assembly: the tolerance, then the radii. -/
def AssemblyOptions.check (o : AssemblyOptions α) : Except (GraphError α) Unit :=
  if !Network.isTolerance o.mergeTolerance then .error (.invalidTolerance o.mergeTolerance)
  else match o.junctions.badRadius? with
    | some r => .error (.invalidRadius r)
    | none => .ok ()

/-- The checks of all stages, in the order in which they are made. -/
def GeneratorConfig.check (c : GeneratorConfig α) : Except (GenerateError α) Unit := do
  c.grammar.validateGrammar.mapError fun e => .grammar (.refused e)
  c.grammar.validateTurtle.mapError fun e => .grammar (.refused e)
  c.assembly.check.mapError .graph

theorem AssemblyOptions.check_eq_ok_iff {o : AssemblyOptions α} : o.check = .ok () ↔ o.IsValid := by
  rw [check, IsValid]
  cases Network.isTolerance o.mergeTolerance with
  | false => simp
  | true => cases o.junctions.badRadius? <;> simp

theorem GeneratorConfig.check_eq_ok_iff {c : GeneratorConfig α} :
    c.check = .ok () ↔ c.grammar.validate = .ok () ∧ c.assembly.IsValid := by
  simp only [check, GrammarConfig.validate, bind_eq_ok_iff, mapError_eq_ok_iff,
    AssemblyOptions.check_eq_ok_iff]
  constructor
  · intro ⟨_, hgrammar, _, hturtle, hvalid⟩
    exact ⟨⟨_, hgrammar, hturtle⟩, hvalid⟩
  · intro ⟨⟨_, hgrammar, hturtle⟩, hvalid⟩
    exact ⟨_, hgrammar, _, hturtle, hvalid⟩

/-! ## The outcome of every stage -/

theorem map_mapError {ε ε' β : Type} (x : Except ε β) (g : ε → ε') :
    (x.mapError g).map (fun _ => ()) = (x.map fun _ => ()).mapError g := by
  cases x <;> rfl

/-- The outcome of two stages is decided by their checks, whatever the first one makes. -/
theorem map_bind_eq {ε β γ : Type} {x : Except ε β} {f : β → Except ε γ} {u v : Except ε Unit}
    (hx : x.map (fun _ => ()) = u) (hf : ∀ b, (f b).map (fun _ => ()) = v) :
    (x >>= f).map (fun _ => ()) = u >>= fun _ => v := by
  subst hx
  cases x with
  | error e => rfl
  | ok b => exact hf b

theorem GrammarConfig.map_expand {c : GrammarConfig α} (h : c.IsChoosable) :
    c.expand.map (fun _ => ()) = c.validateGrammar.mapError .refused := by
  cases hgrammar : c.validateGrammar with
  | error e =>
      rw [expand, Grammar.ofConfig, hgrammar]
      rfl
  | ok _ =>
      obtain ⟨word, hword⟩ := exists_expand_eq_ok h hgrammar
      rw [hword]
      rfl

theorem GrammarConfig.map_interpret (c : GrammarConfig α) (word : Word) :
    (c.interpret word).map (fun _ => ()) = c.validateTurtle := by
  rw [interpret, Interpreter.ofConfig]
  cases c.validateTurtle <;> rfl

theorem AssemblyOptions.map_assemble (o : AssemblyOptions α) (segments : List (RoadSegment α)) :
    (o.assemble segments).map (fun _ => ()) = o.check := by
  rw [assemble, check]
  split
  · rfl
  · cases o.junctions.badRadius? with
    | some r => rfl
    | none => rfl

/-- Surfaces can be built for every assembled network, in whatever style. -/
theorem exists_build_of_assemble {o : AssemblyOptions α} {segments : List (RoadSegment α)}
    {n : Network α} (h : o.assemble segments = .ok n) (b : BuildOptions α)
    (resolver : StyleResolver α) : ∃ g, b.build n resolver = .ok g := by
  rw [BuildOptions.build, (isSound_of_assemble h).validate_eq_ok]
  exact ⟨_, rfl⟩

/-! ## All stages -/

theorem map_generateNetwork {c : GeneratorConfig α} (h : c.grammar.IsChoosable) :
    (generateNetwork c.grammar c.assembly).map (fun _ => ()) = c.check := by
  have hexpand : (c.grammar.expand.mapError GenerateError.grammar).map (fun _ => ()) =
      c.grammar.validateGrammar.mapError fun e => .grammar (.refused e) := by
    rw [map_mapError, GrammarConfig.map_expand h]
    cases c.grammar.validateGrammar <;> rfl
  refine map_bind_eq hexpand fun word => map_bind_eq ?_ fun segments => ?_
  · rw [map_mapError, GrammarConfig.map_interpret]
  · rw [map_mapError, AssemblyOptions.map_assemble]

/-- Once there is a network, its surfaces are generated as well. -/
theorem map_fst_generate (c : GeneratorConfig α) (resolver : StyleResolver α) :
    (c.generate resolver).map Prod.fst = generateNetwork c.grammar c.assembly := by
  rw [GeneratorConfig.generate]
  cases hnetwork : generateNetwork c.grammar c.assembly with
  | error e => rfl
  | ok n =>
      obtain ⟨segments, hassemble⟩ := exists_assemble_of_generateNetwork hnetwork
      obtain ⟨g, hg⟩ := exists_build_of_assemble hassemble c.geometry resolver
      simp only [bind, Except.bind, hg]
      rfl

theorem map_generate {c : GeneratorConfig α} (h : c.grammar.IsChoosable)
    (resolver : StyleResolver α) : (c.generate resolver).map (fun _ => ()) = c.check := by
  rw [← map_generateNetwork h, ← map_fst_generate c resolver]
  cases c.generate resolver with
  | error e => rfl
  | ok r => rfl

/-- A tolerance is usable when it is finite and positive. -/
theorem isTolerance_iff {t : Float} :
    Network.isTolerance t = true ↔ t.isFinite = true ∧ 0.0 < t := by
  rw [Network.isTolerance, Bool.and_eq_true, Bool.not_eq_true', decide_eq_false_iff_not]
  exact and_congr_right fun hfinite => Binary64.not_le_zero_iff hfinite

/-- A generator fails exactly with the first of its checks that fails, unless weights sum up to
infinity. In particular it never fails after a network has been assembled. -/
theorem generate_outcome {c : GeneratorConfig Float} (hbounded : c.grammar.IsBounded)
    (resolver : StyleResolver Float) :
    (c.generate resolver).map (fun _ => ()) = c.check ∧
    ((∃ r, c.generate resolver = .ok r) ↔ c.grammar.validate = .ok () ∧
      (c.assembly.mergeTolerance.isFinite = true ∧ 0.0 < c.assembly.mergeTolerance) ∧
      c.assembly.junctions.badRadius? = none) ∧
    ∀ (o : AssemblyOptions Float) (segments : List (RoadSegment Float)) (n : Network Float),
      o.assemble segments = .ok n → ∀ b : BuildOptions Float, ∃ g, b.build n resolver = .ok g := by
  have hmap := map_generate hbounded.isChoosable resolver
  refine ⟨hmap, ?_, fun o segments n h b => exists_build_of_assemble h b resolver⟩
  rw [← isTolerance_iff, ← AssemblyOptions.IsValid, ← GeneratorConfig.check_eq_ok_iff, ← hmap]
  cases c.generate resolver with
  | error e => simp [Except.map]
  | ok r => simp [Except.map]

/-- Streets that go on or branch, each as likely as the other. -/
def branching : GeneratorConfig Float :=
  { GeneratorConfig.default with
    grammar := (GrammarConfig.default.withProduction 'F' ⟨1.0, "FF".toList⟩).withProduction 'F'
      ⟨1.0, "F[+F]F".toList⟩ }

/-- The same streets with a tolerance that no ends can be merged within. -/
def intolerant : GeneratorConfig Float :=
  { branching with assembly := { AssemblyOptions.default with mergeTolerance := -1.0 } }

theorem check_intolerant : intolerant.check = .error (.graph (.invalidTolerance (-1.0))) := by
  have hgrammar : intolerant.grammar.validateGrammar = .ok () := rfl
  have hturtle : intolerant.grammar.validateTurtle = .ok () := rfl
  have htolerance : Network.isTolerance intolerant.assembly.mergeTolerance = false := by
    decide +kernel
  rw [GeneratorConfig.check, hgrammar, hturtle, AssemblyOptions.check, htolerance]
  rfl

theorem generate_branching :
    (∃ r, branching.generate (fun _ => none) = .ok r) ∧
      (intolerant.generate fun _ => none).map (fun _ => ()) =
        .error (.graph (.invalidTolerance (-1.0))) := by
  have hbounded : branching.grammar.IsBounded := by decide +kernel
  constructor
  · refine (generate_outcome hbounded _).2.1.mpr ⟨rfl, ⟨?_, ?_⟩, rfl⟩
    · decide +kernel
    · decide +kernel
  · rw [← check_intolerant]
    exact (generate_outcome (c := intolerant) hbounded _).1

end Roadworks
