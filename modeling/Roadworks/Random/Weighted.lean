import Roadworks.Scalar
/-!
Choosing one of several items in proportion to their weights. The running sums cut the range of the
total into one interval for every item; a random fraction of it falls into one of them.
-/

namespace Roadworks

/-- Running sums of weights, ready for choosing. -/
structure Weighted (α : Type) where
  /-- The sums up to every item but the last. -/
  cumulative : List α
  /-- What a random fraction is multiplied by; no fraction reaches the total. -/
  scale : α

/-- Why weights allow no choice. -/
inductive Weighted.Fault where
  | noItem
  | invalidWeight
  | allZero
  | overflow
deriving DecidableEq

namespace Weighted

variable {α : Type} [Scalar α]

/-- The running sums from `total` on, without the last, and the last. -/
def sums (total : α) : List α → List α × α
  | [] => ([], total)
  | w :: rest =>
    let (before, last) := sums (total + w) rest
    (total :: before, last)

/-- The largest fraction that can be drawn. -/
def topFraction : α := Nat.cast (Nat.pow 2 52 - 1) / Nat.cast (Nat.pow 2 52)

/-- Lowers the scale until no fraction of it reaches the total; one step is enough where numbers
are rounded to nearest. -/
def lower (fuel : Nat) (total scale : α) : α :=
  match fuel with
  | 0 => scale
  | fuel + 1 => if total ≤ scale * topFraction then lower fuel total (Scalar.below scale) else scale

/-- Prepares weights for choosing. -/
def ofWeights : List α → Except Fault (Weighted α)
  | [] => .error .noItem
  | w :: rest =>
    if (w :: rest).any fun v => !decide (0.0 ≤ v) then .error .invalidWeight
    else
      let (cumulative, total) := sums w rest
      if total == 0.0 then .error .allZero
      else if !Scalar.isFinite total then .error .overflow
      else .ok ⟨cumulative, lower 8 total total⟩

/-- The number of the item that a random word chooses: the first whose running sum is above the
drawn fraction of the total. -/
def choose (w : Weighted α) (word : UInt64) : Nat :=
  let fraction : α := Nat.cast (word.toNat >>> 12) / Nat.cast (Nat.pow 2 52)
  let drawn := fraction * w.scale
  (w.cumulative.takeWhile fun c => decide (c ≤ drawn)).length

/-! ### One item of the list -/

theorem length_sums (total : α) (ws : List α) : (sums total ws).1.length = ws.length := by
  induction ws generalizing total with
  | nil => rfl
  | cons w ws ih => simp [sums, ih]

theorem choose_le (w : Weighted α) (word : UInt64) : w.choose word ≤ w.cumulative.length :=
  (List.takeWhile_sublist _).length_le

/-- A choice among weights chooses one of their positions. -/
theorem choose_lt_length {ws : List α} {w : Weighted α} (h : ofWeights ws = .ok w) (word : UInt64) :
    w.choose word < ws.length := by
  refine Nat.lt_of_le_of_lt (w.choose_le word) ?_
  cases ws with
  | nil => cases h
  | cons v rest =>
      simp only [ofWeights] at h
      split at h <;> try cases h
      split at h <;> try cases h
      split at h <;> cases h
      simp [length_sums]

end Weighted

end Roadworks
