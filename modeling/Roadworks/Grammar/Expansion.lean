import Roadworks.Grammar.Config
import Roadworks.Random.ChaCha
import Roadworks.Random.Weighted
/-!
Expanding a grammar. In every iteration each symbol of the word gives way to a candidate of its own,
all at once; a symbol without candidates stays. Random words are used up one for every symbol that
has more than one candidate, in the order of the word.
-/

namespace Roadworks

/-- What takes the place of a symbol. -/
inductive Replacement (α : Type) where
  | fixed (body : Word)
  | weighted (bodies : List Word) (choice : Weighted α)

/-- A grammar that has been checked and is ready for expansion. -/
structure Grammar (α : Type) where
  start : Word
  replacements : List (Char × Replacement α)
  iterations : Nat
  seed : Option UInt64

/-- Why a configuration gives no grammar: it is refused, or the weights of a symbol sum up to more
than any number. -/
inductive Grammar.Fault (α : Type) where
  | refused (e : ConfigError α)
  | unboundedWeights (symbol : Char)

namespace Grammar

variable {α : Type} [Scalar α]

/-- Prepares the candidates of a symbol. -/
def replacement (symbol : Char) (ps : List (Production α)) : Except (Fault α) (Replacement α) :=
  match ps with
  | [p] => .ok (.fixed p.body)
  | ps =>
    match Weighted.ofWeights (ps.map (·.weight)) with
    | .ok choice => .ok (.weighted (ps.map (·.body)) choice)
    | .error .overflow => .error (.unboundedWeights symbol)
    | .error _ => .error (.refused (.invalidWeight symbol (Scalar.sum (ps.map (·.weight)))))

/-- Checks a configuration and prepares its rules. -/
def ofConfig (c : GrammarConfig α) : Except (Fault α) (Grammar α) :=
  match c.validateGrammar with
  | .error e => .error (.refused e)
  | .ok () => do
    let replacements ← c.rules.entries.mapM fun (symbol, ps) => do
      return (symbol, ← replacement symbol ps)
    return ⟨c.start, replacements, c.iterations.toInt.toNat, c.seed⟩

/-- What a symbol becomes, and the position of the next random word. -/
def rewriteSymbol (g : Grammar α) (source : Nat → UInt64) (position : Nat) (symbol : Char) :
    Word × Nat :=
  match g.replacements.lookup symbol with
  | none => ([symbol], position)
  | some (.fixed body) => (body, position)
  | some (.weighted bodies choice) => (bodies.getD (choice.choose (source position)) [], position + 1)

/-- What a word becomes in one iteration, and the position of the next random word. -/
def rewriteWord (g : Grammar α) (source : Nat → UInt64) (position : Nat) : Word → Word × Nat
  | [] => ([], position)
  | symbol :: rest =>
    let (body, next) := g.rewriteSymbol source position symbol
    let (word, last) := g.rewriteWord source next rest
    (body ++ word, last)

/-- What a word becomes in some iterations, when its random words begin at a position, and the
position of the next one. -/
def iterate (g : Grammar α) (source : Nat → UInt64) : Nat → Word × Nat → Word × Nat
  | 0, state => state
  | n + 1, (word, position) => g.iterate source n (g.rewriteWord source position word)

/-- The expansion with random words from the given source. -/
def expandWith (g : Grammar α) (source : Nat → UInt64) : Word :=
  (g.iterate source g.iterations (g.start, 0)).1

/-- The expansion with random words from the seed. Without one any source will do, and the stream
of seed zero is taken. -/
def expand (g : Grammar α) : Word := g.expandWith (ChaCha.ofSeed (g.seed.getD 0))

/-! ### Symbols that stay and iterations in sequence -/

/-- A symbol without candidates stays and uses no random word. -/
theorem rewriteSymbol_of_lookup_eq_none (g : Grammar α) (source : Nat → UInt64) (position : Nat)
    {symbol : Char} (h : g.replacements.lookup symbol = none) :
    g.rewriteSymbol source position symbol = ([symbol], position) := by
  rw [rewriteSymbol, h]

theorem iterate_add (g : Grammar α) (source : Nat → UInt64) (n m : Nat) (state : Word × Nat) :
    g.iterate source (n + m) state = g.iterate source m (g.iterate source n state) := by
  induction n generalizing state with
  | zero => rw [Nat.zero_add, iterate]
  | succ n ih => rw [Nat.add_right_comm, iterate, ih, iterate]

end Grammar

/-- Expands the starting word of a configuration under its rules. -/
def GrammarConfig.expand {α : Type} [Scalar α] (c : GrammarConfig α) :
    Except (Grammar.Fault α) Word :=
  (Grammar.ofConfig c).map Grammar.expand

end Roadworks
