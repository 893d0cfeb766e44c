import Roadworks.Proofs.Generator.Outcome
import Roadworks.Proofs.Network.Styles
import Roadworks.Proofs.Turtle.Styles
/-! # Styles do not shape what is generated

Styles are carried from the turtle to the roads and looked at nowhere in between. So they can be
wiped off before a stage as well as after it. -/

namespace Roadworks

variable {α : Type}

/-! ## Assembling -/

namespace Placed

def unstyled (p : Placed α) : Placed α := { p with segment := p.segment.unstyled }

theorem find?_parallel_unstyled (p : Placed α) (before : List (Placed α)) :
    (before.map unstyled).find? p.unstyled.parallel = (before.find? p.parallel).map unstyled := by
  rw [List.find?_map]
  rfl

/-- Without styles, the same segments are kept and dropped. -/
theorem sift_unstyled (before l : List (Placed α)) :
    sift (before.map unstyled) (l.map unstyled) =
      ((sift before l).1.map unstyled, (sift before l).2) := by
  induction l generalizing before with
  | nil => rfl
  | cons p l ih =>
      -- Both tests look at the clusters of `p` only, so they turn out the same without its style.
      have happend : (before ++ [p]).map unstyled = before.map unstyled ++ [p.unstyled] := by simp
      rw [List.map_cons, sift, sift, find?_parallel_unstyled, ← happend, ih, ih]
      by_cases hloop : p.tail = p.head
      · rw [if_pos hloop, if_pos (show p.unstyled.tail = p.unstyled.head from hloop)]
        rfl
      · rw [if_neg hloop, if_neg (show p.unstyled.tail ≠ p.unstyled.head from hloop)]
        cases before.find? p.parallel <;> rfl

end Placed

theorem placeSegments_unstyled (segments : List (RoadSegment α)) (ends : List Nat) :
    placeSegments (segments.map RoadSegment.unstyled) ends =
      (placeSegments segments ends).map Placed.unstyled := by
  induction segments generalizing ends with
  | nil => rfl
  | cons s rest ih =>
      match ends with
      | [] => rfl
      | [_] => rfl
      | a :: b :: ends => exact congrArg (Placed.unstyled ⟨s, a, b⟩ :: ·) (ih ends)

theorem segmentEnds_unstyled (segments : List (RoadSegment α)) :
    segmentEnds (segments.map RoadSegment.unstyled) = segmentEnds segments := by
  rw [segmentEnds, List.flatMap_map]
  rfl

theorem touched_unstyled (count : Nat) (kept : List (Placed α)) :
    touched count (kept.map Placed.unstyled) = touched count kept := by
  unfold touched
  simp only [List.any_map]
  rfl

variable [Scalar α]

/-- Segments without styles make the same network without styles. -/
theorem AssemblyOptions.assemble_unstyled (o : AssemblyOptions α)
    (segments : List (RoadSegment α)) :
    o.assemble (segments.map RoadSegment.unstyled) =
      (o.assemble segments).map Network.unstyled := by
  unfold assemble
  split
  · rfl
  · cases o.junctions.badRadius? with
    | some r => rfl
    | none =>
        have hsift := Placed.sift_unstyled []
          (placeSegments segments (clusterPoints o.mergeTolerance (segmentEnds segments)).assignment)
        rw [List.map_nil] at hsift
        simp only [segmentEnds_unstyled, placeSegments_unstyled, hsift, touched_unstyled,
          Except.map, Network.ofParts_unstyled, List.map_map]
        rfl

/-! ## Generating -/

theorem GrammarConfig.expand_restyled (c : GrammarConfig α) (style : String)
    (symbols : Dictionary Char String) : (c.restyled style symbols).expand = c.expand := rfl

/-- Styles can be wiped off segments before the network is made of them. -/
theorem map_unstyled_generateNetwork (c : GrammarConfig α) (o : AssemblyOptions α) :
    (generateNetwork c o).map Network.unstyled = (do
      let word ← c.expand.mapError .grammar
      let segments ← ((c.interpret word).map (List.map RoadSegment.unstyled)).mapError
        fun e => .grammar (.refused e)
      (o.assemble segments).mapError .graph) := by
  unfold generateNetwork
  cases c.expand with
  | error e => rfl
  | ok word =>
      cases hinterpret : c.interpret word with
      | error e => simp only [bind, Except.bind, Except.mapError, Except.map, hinterpret]
      | ok segments =>
          simp only [bind, Except.bind, Except.mapError, Except.map, hinterpret]
          rw [o.assemble_unstyled]
          cases o.assemble segments <;> rfl

/-- Configurations that differ in styles only, where the same symbols set one, generate the same
from the same seed, up to the styles of the roads. A word draws the same segments without the
symbols that set a style, up to their styles. -/
theorem generateNetwork_restyled {c : GrammarConfig α} {symbols : Dictionary Char String}
    (hkeys : symbols.keys = c.styleSymbols.keys) (style : String) (seed : UInt64)
    (o : AssemblyOptions α) :
    let c := { c with seed := some seed }
    let c' := c.restyled style symbols
    ((generateNetwork c' o).map Network.unstyled = (generateNetwork c o).map Network.unstyled) ∧
      (∀ n n', generateNetwork c o = .ok n → generateNetwork c' o = .ok n' →
        n'.intersectionType = n.intersectionType ∧ n'.components = n.components ∧
          n'.summary = n.summary) ∧
      ∀ (i : Interpreter α) (word : Word),
        (i.interpret (word.filter fun symbol => !(i.op symbol).setsStyle)).map
            RoadSegment.unstyled =
          (i.interpret word).map RoadSegment.unstyled := by
  intro c c'
  have hsame : (generateNetwork c' o).map Network.unstyled =
      (generateNetwork c o).map Network.unstyled := by
    rw [map_unstyled_generateNetwork, map_unstyled_generateNetwork, c.expand_restyled]
    simp only [c', c.map_interpret_restyled style hkeys]
  refine ⟨hsame, fun n n' hn hn' => ?_, Interpreter.interpret_filter_setsStyle⟩
  rw [hn, hn'] at hsame
  have hunstyled : n'.unstyled = n.unstyled := Except.ok.inj hsame
  exact ⟨Network.intersectionType_eq_of_unstyled_eq hunstyled,
    Network.components_eq_of_unstyled_eq hunstyled, Network.summary_eq_of_unstyled_eq hunstyled⟩

theorem exists_generateNetwork_eq_ok {c : GeneratorConfig α} (hchoosable : c.grammar.IsChoosable)
    (hcheck : c.check = .ok ()) : ∃ n, generateNetwork c.grammar c.assembly = .ok n := by
  have hmap := map_generateNetwork hchoosable
  rw [hcheck] at hmap
  cases hn : generateNetwork c.grammar c.assembly with
  | error e =>
      rw [hn] at hmap
      cases hmap
  | ok n => exact ⟨n, rfl⟩

/-- Branching streets that become avenues where a symbol says so, from a fixed seed. -/
def avenues : GeneratorConfig Float :=
  { branching with
    grammar := { branching.grammar.withStyleSymbol 'A' "avenue" with seed := some 7 } }

/-- The same streets as alleys that become lanes. -/
def alleys : GeneratorConfig Float :=
  { avenues with grammar := avenues.grammar.restyled "alley" (Dictionary.empty.insert 'A' "lane") }

theorem generateNetwork_restyled_avenues :
    ∃ n n', generateNetwork avenues.grammar .default = .ok n ∧
      generateNetwork alleys.grammar .default = .ok n' ∧
      n'.unstyled = n.unstyled ∧ n'.summary = n.summary := by
  have hkeys : (Dictionary.empty.insert 'A' "lane").keys = avenues.grammar.styleSymbols.keys := rfl
  have hbounded : avenues.grammar.IsBounded := by decide +kernel
  have hbounded' : alleys.grammar.IsBounded := hbounded
  obtain ⟨n, hn⟩ := exists_generateNetwork_eq_ok hbounded.isChoosable
    (GeneratorConfig.check_eq_ok_iff.mpr ⟨rfl, AssemblyOptions.isValid_default⟩)
  obtain ⟨n', hn'⟩ := exists_generateNetwork_eq_ok hbounded'.isChoosable
    (GeneratorConfig.check_eq_ok_iff.mpr ⟨rfl, AssemblyOptions.isValid_default⟩)
  obtain ⟨hsame, hobserved, _⟩ := generateNetwork_restyled hkeys "alley" 7 .default
  refine ⟨n, n', hn, hn', ?_, (hobserved n n' hn hn').2.2⟩
  change (generateNetwork alleys.grammar alleys.assembly).map _ =
    (generateNetwork avenues.grammar avenues.assembly).map _ at hsame
  rw [hn, hn'] at hsame
  exact Except.ok.inj hsame

end Roadworks
