import Roadworks.Generator
import Roadworks.Network.Codec
import Roadworks.Proofs.Assembly.Soundness
import Roadworks.Proofs.Document.Reading
/-! # Networks that can be obtained

Every network is assembled or read from a document in the end. Both ways lead to networks that pass
their check, so surfaces can be built for all of them. -/

namespace Roadworks

variable {α : Type} [Scalar α]

/-- The networks that are handed out: assembled, generated from a grammar, or read. -/
inductive Network.IsObtained : Network α → Prop where
  | assembled {o : AssemblyOptions α} {segments : List (RoadSegment α)} {n : Network α} :
    o.assemble segments = .ok n → IsObtained n
  | drawn {segments : List (RoadSegment α)} {tolerance : α} {n : Network α} :
    assemble segments tolerance = .ok n → IsObtained n
  | generated {grammar : GrammarConfig α} {o : AssemblyOptions α} {n : Network α} :
    generateNetwork grammar o = .ok n → IsObtained n
  | surfaced {c : GeneratorConfig α} {resolver : StyleResolver α} {n : Network α}
    {g : Geometry α} : c.generate resolver = .ok (n, g) → IsObtained n
  | imported {d : NetworkDocument α} {n : Network α} : d.toNetwork = .ok n → IsObtained n
  | read {v : Json α} {n : Network α} : Network.ofJson v = .ok n → IsObtained n

/-- A network is sound when it is coherent under a tolerance and radii that can be used. -/
structure Network.IsSound (n : Network α) : Prop extends n.IsCoherent where
  isTolerance : Network.isTolerance n.mergeTolerance = true
  badRadius : n.rules.badRadius? = none

/-! ## Where networks come from -/

theorem exists_assemble_of_generateNetwork {grammar : GrammarConfig α} {o : AssemblyOptions α}
    {n : Network α} (h : generateNetwork grammar o = .ok n) :
    ∃ segments, o.assemble segments = .ok n := by
  simp only [generateNetwork, bind_eq_ok_iff, mapError_eq_ok_iff] at h
  obtain ⟨_, _, segments, _, hassemble⟩ := h
  exact ⟨segments, hassemble⟩

theorem generateNetwork_of_generate {c : GeneratorConfig α} {resolver : StyleResolver α}
    {n : Network α} {g : Geometry α} (h : c.generate resolver = .ok (n, g)) :
    generateNetwork c.grammar c.assembly = .ok n := by
  simp only [GeneratorConfig.generate, bind_eq_ok_iff] at h
  obtain ⟨m, hm, g', _, heq⟩ := h
  rcases Prod.mk.inj (Except.ok.inj heq) with ⟨rfl, rfl⟩
  exact hm

theorem exists_toNetwork_of_ofJson {v : Json α} {n : Network α} (h : Network.ofJson v = .ok n) :
    ∃ d : NetworkDocument α, d.toNetwork = .ok n := by
  rw [Network.ofJson] at h
  split at h
  · cases h
  · next d _ => exact ⟨d, mapError_eq_ok_iff.mp h⟩

/-- All networks are assembled or read from a document. -/
theorem Network.IsObtained.assembled_or_imported {n : Network α} (h : n.IsObtained) :
    (∃ (o : AssemblyOptions α) (segments : List (RoadSegment α)), o.assemble segments = .ok n) ∨
      ∃ d : NetworkDocument α, d.toNetwork = .ok n := by
  cases h with
  | assembled h => exact .inl ⟨_, _, h⟩
  | drawn h => exact .inl ⟨_, _, h⟩
  | generated h => exact .inl ⟨_, exists_assemble_of_generateNetwork h⟩
  | surfaced h =>
      exact .inl ⟨_, exists_assemble_of_generateNetwork (generateNetwork_of_generate h)⟩
  | imported h => exact .inr ⟨_, h⟩
  | read h => exact .inr (exists_toNetwork_of_ofJson h)

/-! ## Soundness -/

theorem isSound_of_assemble {o : AssemblyOptions α} {segments : List (RoadSegment α)}
    {n : Network α} (h : o.assemble segments = .ok n) : n.IsSound := by
  rcases AssemblyOptions.assemble_eq_ok_iff.mp h with ⟨hvalid, rfl⟩
  exact ⟨o.isCoherent_network segments, hvalid.1, hvalid.2⟩

theorem isSound_of_toNetwork {d : NetworkDocument α} {n : Network α} (h : d.toNetwork = .ok n) :
    n.IsSound := by
  obtain ⟨htolerance, _, hradius, _, _, rfl, hcoherent⟩ := NetworkDocument.toNetwork_eq_ok_iff.mp h
  exact ⟨hcoherent, htolerance, hradius⟩

theorem Network.IsObtained.isSound {n : Network α} (h : n.IsObtained) : n.IsSound := by
  rcases h.assembled_or_imported with ⟨_, _, h⟩ | ⟨_, h⟩
  · exact isSound_of_assemble h
  · exact isSound_of_toNetwork h

theorem exists_build_eq_ok {n : Network α} (h : n.validate = .ok ()) (b : Builder α)
    (resolver : StyleResolver α) : ∃ g, (b.build n resolver).2 = .ok g := by
  have hbuild : b.options.build n resolver = .ok (b.options.surfaces n resolver) := by
    rw [BuildOptions.build, h]
    rfl
  refine ⟨b.options.surfaces n resolver, ?_⟩
  rw [Builder.build, hbuild]

/-- Every network passes its check and can be built, and one that was assembled has no loops, no
repeated roads and no lonely nodes. -/
theorem Network.IsObtained.passes {n : Network α} (h : n.IsObtained) :
    n.validate = .ok () ∧
      (∀ (b : Builder α) (resolver : StyleResolver α), ∃ g, (b.build n resolver).2 = .ok g) ∧
      ∀ (o : AssemblyOptions α) (segments : List (RoadSegment α)),
        o.assemble segments = .ok n → n.IsSimple := by
  have hvalid := h.isSound.validate_eq_ok
  refine ⟨hvalid, exists_build_eq_ok hvalid, fun o segments hassemble => ?_⟩
  rcases AssemblyOptions.assemble_eq_ok_iff.mp hassemble with ⟨_, rfl⟩
  exact o.isSimple_network segments

theorem passes_retraced :
    ∃ n : Network Float, AssemblyOptions.assemble .default retraced = .ok n ∧
      n.validate = .ok () ∧ n.IsSimple ∧ n.nodes.length = 3 := by
  rcases (Network.IsObtained.assembled assemble_retraced).passes with ⟨hvalid, _, hsimple⟩
  exact ⟨_, assemble_retraced, hvalid, hsimple _ _ assemble_retraced, by decide +kernel⟩

end Roadworks
