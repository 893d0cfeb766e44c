/-!
Blank characters and the cuts that texts are taken apart with. A character is blank when Unicode
gives it the property White_Space.
-/

namespace Roadworks.Text

/-- The ranges of the Unicode property White_Space, by code point. -/
def blankRanges : List (Nat × Nat) :=
  [(0x9, 0xD), (0x20, 0x20), (0x85, 0x85), (0xA0, 0xA0), (0x1680, 0x1680), (0x2000, 0x200A),
    (0x2028, 0x2029), (0x202F, 0x202F), (0x205F, 0x205F), (0x3000, 0x3000)]

/-- The character is a space, a tab, a line end or another kind of white space. -/
def isBlank (c : Char) : Bool := blankRanges.any fun (lo, hi) => lo ≤ c.toNat && c.toNat ≤ hi

/-- The text without the blanks at its two ends. -/
def trim (cs : List Char) : List Char :=
  ((cs.dropWhile isBlank).reverse.dropWhile isBlank).reverse

/-- The text without its blanks. -/
def squeeze (cs : List Char) : List Char := cs.filter fun c => !isBlank c

/-- What stands before the first `mark` and what stands after it, if it occurs. -/
def cutAt (mark : Char) : List Char → Option (List Char × List Char)
  | [] => none
  | c :: cs => if c = mark then some ([], cs) else (cutAt mark cs).map fun (a, b) => (c :: a, b)

/-- What stands before the first `->` and what stands after it, if it occurs. -/
def cutArrow : List Char → Option (List Char × List Char)
  | [] => none
  | '-' :: '>' :: cs => some ([], cs)
  | c :: cs => (cutArrow cs).map fun (a, b) => (c :: a, b)

/-- The lines of a text: the pieces between its line ends. -/
def lines : List Char → List (List Char)
  | [] => [[]]
  | c :: cs =>
    if c = '\n' then [] :: lines cs
    else match lines cs with
      | [] => [[c]]
      | line :: rest => (c :: line) :: rest

/-! ### What is cut and what is kept -/

theorem squeeze_append (a b : List Char) : squeeze (a ++ b) = squeeze a ++ squeeze b :=
  List.filter_append ..

/-- A cut takes the first mark out and nothing else. -/
theorem cutAt_eq_some_iff {mark : Char} {cs a b : List Char} :
    cutAt mark cs = some (a, b) ↔ cs = a ++ mark :: b ∧ mark ∉ a := by
  induction cs generalizing a with
  | nil => simp [cutAt]
  | cons c cs ih =>
      by_cases h : c = mark
      · subst h
        cases a with
        | nil => simp [cutAt, eq_comm]
        | cons x a => simp [cutAt]; grind
      · cases a with
        | nil => simp [cutAt, h]
        | cons x a => simp [cutAt, h, ih]; grind

theorem cutAt_eq_none_iff {mark : Char} {cs : List Char} : cutAt mark cs = none ↔ mark ∉ cs := by
  induction cs with
  | nil => simp [cutAt]
  | cons c cs ih => by_cases h : c = mark <;> simp [cutAt, h, ih, Ne.symm]

end Roadworks.Text
