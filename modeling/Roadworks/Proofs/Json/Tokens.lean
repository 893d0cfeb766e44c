import Mathlib.Data.List.TakeWhile
import Roadworks.Json.Reader
import Roadworks.Json.Writer
/-! # Texts and numbers that are read as they were written

A reader takes of its input what the token needs and leaves the rest. -/

namespace Roadworks.Json

/-! ## Texts -/

theorem hexDigit_digitChar : ∀ n < 16, hexDigit (Nat.digitChar n) = some n := by
  decide

theorem hexUnit_hexPair {n : Nat} (h : n < 256) (rest : List Char) :
    hexUnit ('0' :: '0' :: hexPair n ++ rest) = some (n, rest) := by
  have hzero : hexDigit '0' = some 0 := rfl
  have hhigh := hexDigit_digitChar (n / 16) (by omega)
  have hlow := hexDigit_digitChar (n % 16) (by omega)
  have hvalue : ((0 * 16 + 0) * 16 + n / 16) * 16 + n % 16 = n := by omega
  simp only [hexPair, List.cons_append, List.nil_append, hexUnit, hzero, hhigh, hlow]
  exact congrArg (fun m => some (m, rest)) hvalue

/-- A string that starts with a character, read after it. -/
def startString (c : Char) (tail : Option (Option (List Char) × List Char)) :
    Option (Option (List Char) × List Char) :=
  tail.map fun (s, rest) => (s.map (c :: ·), rest)

theorem readString_letter {mark c : Char} (h : escaped mark = some c) (fuel : Nat) (rest : List Char) :
    readString (fuel + 1) ('\\' :: mark :: rest) = startString c (readString fuel rest) := by
  have hu : mark ≠ 'u' := by
    rintro rfl
    cases h
  rw [readString, h]
  · cases readString fuel rest <;> rfl
  · exact hu

theorem readString_control {c : Char} (h : c.toNat < 0x20) (fuel : Nat) (rest : List Char) :
    readString (fuel + 1) ('\\' :: 'u' :: '0' :: '0' :: hexPair c.toNat ++ rest) =
      startString c (readString fuel rest) := by
  have hunit := hexUnit_hexPair (Nat.lt_trans h (by decide : 0x20 < 256)) rest
  have hhigh : isHigh c.toNat = false := by simp [isHigh]; omega
  have hlow : isLow c.toNat = false := by simp [isLow]; omega
  rw [List.cons_append, List.cons_append, readString, hunit]
  simp only [Option.bind_eq_bind, Option.bind_some, hhigh, hlow]
  rw [Char.ofNat_toNat]
  cases readString fuel rest <;> rfl

theorem readString_plain {c : Char} (h : ¬ c.toNat < 0x20) (hquote : c ≠ '"')
    (hbackslash : c ≠ '\\') (fuel : Nat) (rest : List Char) :
    readString (fuel + 1) (c :: rest) = startString c (readString fuel rest) := by
  rw [readString, if_neg (not_or.mpr ⟨h, hbackslash⟩)]
  · cases readString fuel rest <;> rfl
  · exact hquote
  · exact fun _ heq => absurd heq hbackslash
  · exact fun _ _ heq => absurd heq hbackslash

/-- An escaped character is read as itself. -/
theorem readString_escape (c : Char) (fuel : Nat) (rest : List Char) :
    readString (fuel + 1) (escape c ++ rest) = startString c (readString fuel rest) := by
  unfold escape
  split
  case h_8 hquote hbackslash _ _ _ _ _ =>
    split
    · next hcontrol => exact readString_control hcontrol fuel rest
    · next hcontrol => exact readString_plain hcontrol hquote hbackslash fuel rest
  all_goals exact readString_letter rfl fuel rest

theorem readString_flatMap_escape {cs : List Char} {fuel : Nat} (h : cs.length < fuel)
    (rest : List Char) :
    readString fuel (cs.flatMap escape ++ '"' :: rest) = some (some cs, rest) := by
  induction cs generalizing fuel with
  | nil =>
      obtain ⟨fuel, rfl⟩ := Nat.exists_eq_add_one_of_ne_zero (Nat.ne_zero_of_lt h)
      rfl
  | cons c cs ih =>
      obtain ⟨fuel, rfl⟩ := Nat.exists_eq_add_one_of_ne_zero (Nat.ne_zero_of_lt h)
      rw [List.flatMap_cons, List.append_assoc, readString_escape, ih (by simpa using h)]
      rfl

theorem length_le_length_flatMap_escape (cs : List Char) :
    cs.length ≤ (cs.flatMap escape).length := by
  induction cs with
  | nil => exact Nat.le_refl 0
  | cons c cs ih =>
      have hpos : 0 < (escape c).length := by
        unfold escape
        split <;> try split
        all_goals simp
      rw [List.flatMap_cons, List.length_append, List.length_cons]
      omega

theorem toList_quote (s : String) : (quote s).toList = '"' :: s.toList.flatMap escape ++ ['"'] := by
  simp [quote, String.toList_append]

/-- A text in quotes is read as that text. -/
theorem readText_quote (s : String) (rest : List Char) :
    readText ((quote s).toList ++ rest) = some (some s, rest) := by
  have hlength := length_le_length_flatMap_escape s.toList
  rw [toList_quote, List.cons_append, List.cons_append, List.append_assoc, List.singleton_append,
    readText, readString_flatMap_escape (by simp only [List.length_append]; omega)]
  simp

/-! ## Numbers -/

/-- What stands after a number in a document: nothing, or what goes on with the enclosing value. -/
def Stops (rest : List Char) : Prop := ∀ c ∈ rest.head?, c = ',' ∨ c = ']' ∨ c = '\x7d'

theorem Stops.eq_nil_or_cons {rest : List Char} (h : Stops rest) :
    rest = [] ∨ ∃ more, rest = ',' :: more ∨ rest = ']' :: more ∨ rest = '\x7d' :: more := by
  cases rest with
  | nil => exact .inl rfl
  | cons c more => exact .inr ⟨more, by simpa using h c rfl⟩

/-- A run of digits ends where it would end if nothing followed. -/
theorem Stops.split_append {rest : List Char} (h : Stops rest) (cs : List Char) :
    (cs ++ rest).takeWhile Decimal.isDigit = cs.takeWhile Decimal.isDigit ∧
      (cs ++ rest).dropWhile Decimal.isDigit = cs.dropWhile Decimal.isDigit ++ rest := by
  induction cs with
  | nil => obtain rfl | ⟨more, rfl | rfl | rfl⟩ := h.eq_nil_or_cons <;> exact ⟨rfl, rfl⟩
  | cons c cs ih => cases hc : Decimal.isDigit c <;> simp [hc, ih]

/-! ### The parts of a number -/

/-- The sign of a number. -/
def readSign : List Char → Bool × List Char
  | '-' :: cs => (true, cs)
  | cs => (false, cs)

/-- The digits before the point: a single zero, or a run of digits. -/
def readWhole : List Char → Option (List Char × List Char)
  | '0' :: cs => some (['0'], cs)
  | cs => digits cs

/-- The digits after the point, if there is one. -/
def readFraction : List Char → Option (Option (List Char) × List Char)
  | '.' :: cs => (digits cs).map fun (ds, cs) => (some ds, cs)
  | cs => some (none, cs)

/-- The power of ten, if there is one. -/
def readPower : List Char → Option (Option Int × List Char)
  | 'e' :: cs | 'E' :: cs => (Decimal.readExponent cs).map fun (e, cs) => (some e, cs)
  | cs => some (none, cs)

/-- The sign of a power of ten, which may be written though it is positive. -/
def readPowerSign : List Char → Bool × List Char
  | '+' :: cs => (false, cs)
  | '-' :: cs => (true, cs)
  | cs => (false, cs)

theorem readExponent_eq (cs : List Char) : Decimal.readExponent cs =
    (digits (readPowerSign cs).2).map fun (ds, more) =>
      (if (readPowerSign cs).1 then -(Decimal.ofDigits ds : Int) else Decimal.ofDigits ds, more) := by
  fun_cases readPowerSign cs with
  | case1 cs | case2 cs | case3 cs =>
      simp only [Decimal.readExponent, digits]
      cases cs.takeWhile Decimal.isDigit <;> rfl

variable {α : Type} [Scalar α]

/-- The number that its parts stand for. -/
def numberOf (negative : Bool) (whole : List Char) (fraction : Option (List Char))
    (exponent : Option Int) : Json α :=
  let n := Decimal.ofDigits whole
  if fraction.isNone && exponent.isNone && !(negative && n == 0) then
    .integer (if negative then -n else n)
  else .real (Decimal.value negative whole (fraction.getD []) (exponent.getD 0))

/-- A number is read part by part. -/
theorem readNumber_eq (cs : List Char) : readNumber (α := α) cs = (do
    let (negative, cs) := readSign cs
    let (whole, cs) ← readWhole cs
    let (fraction, cs) ← readFraction cs
    let (exponent, cs) ← readPower cs
    return (numberOf negative whole fraction exponent, cs)) := by
  have hpower {β : Type} (cs : List Char) (k : Option Int × List Char → Option β) :
      (readPower cs).bind k = match cs with
        | 'e' :: cs | 'E' :: cs => ((Decimal.readExponent cs).map fun (e, cs) => (some e, cs)).bind k
        | cs => (some (none, cs)).bind k := by
    unfold readPower
    split <;> rfl
  have hfraction {β : Type} (cs : List Char) (k : Option (List Char) × List Char → Option β) :
      (readFraction cs).bind k = match cs with
        | '.' :: cs => ((digits cs).map fun (ds, cs) => (some ds, cs)).bind k
        | cs => (some (none, cs)).bind k := by
    unfold readFraction
    split <;> rfl
  have hwhole {β : Type} (cs : List Char) (k : List Char × List Char → Option β) :
      (readWhole cs).bind k = match cs with
        | '0' :: cs => (some (['0'], cs)).bind k
        | cs => (digits cs).bind k := by
    unfold readWhole
    split <;> rfl
  simp only [Option.bind_eq_bind, hpower, hfraction, hwhole]
  unfold readNumber readSign numberOf
  have hnumber (p : Bool) (v w : Json α) (cs : List Char) :
      (if p then pure (v, cs) else pure (w, cs) : Option (Json α × List Char)) =
        pure (if p then v else w, cs) := by
    split <;> rfl
  simp only [hnumber]
  rfl

/-! ### What follows a number -/

variable {rest : List Char}

theorem digits_append (h : Stops rest) (cs : List Char) :
    digits (cs ++ rest) = (digits cs).map fun (ds, more) => (ds, more ++ rest) := by
  obtain ⟨htake, hdrop⟩ := h.split_append cs
  rw [digits, digits, htake, hdrop]
  split <;> rfl

theorem readPowerSign_append (h : Stops rest) (cs : List Char) :
    readPowerSign (cs ++ rest) = ((readPowerSign cs).1, (readPowerSign cs).2 ++ rest) := by
  cases cs with
  | nil => obtain rfl | ⟨more, rfl | rfl | rfl⟩ := h.eq_nil_or_cons <;> rfl
  | cons c cs =>
      rw [List.cons_append]
      unfold readPowerSign
      split <;> simp_all

theorem readExponent_append (h : Stops rest) (cs : List Char) :
    Decimal.readExponent (cs ++ rest) =
      (Decimal.readExponent cs).map fun (e, more) => (e, more ++ rest) := by
  rw [readExponent_eq, readExponent_eq, readPowerSign_append h, digits_append h]
  cases digits (readPowerSign cs).2 <;> rfl

theorem readSign_append (h : Stops rest) (cs : List Char) :
    readSign (cs ++ rest) = ((readSign cs).1, (readSign cs).2 ++ rest) := by
  cases cs with
  | nil => obtain rfl | ⟨more, rfl | rfl | rfl⟩ := h.eq_nil_or_cons <;> rfl
  | cons c cs =>
      rw [List.cons_append]
      unfold readSign
      split <;> simp_all

theorem readWhole_append (h : Stops rest) (cs : List Char) :
    readWhole (cs ++ rest) = (readWhole cs).map fun (ds, more) => (ds, more ++ rest) := by
  cases cs with
  | nil => obtain rfl | ⟨more, rfl | rfl | rfl⟩ := h.eq_nil_or_cons <;> rfl
  | cons c cs =>
      by_cases hzero : c = '0'
      · subst hzero
        rfl
      · have hrun (more : List Char) : readWhole (c :: more) = digits (c :: more) := by
          rw [readWhole]
          simpa using hzero
        rw [List.cons_append, hrun, hrun, ← List.cons_append, digits_append h]

theorem readFraction_append (h : Stops rest) (cs : List Char) :
    readFraction (cs ++ rest) = (readFraction cs).map fun (ds, more) => (ds, more ++ rest) := by
  cases cs with
  | nil => obtain rfl | ⟨more, rfl | rfl | rfl⟩ := h.eq_nil_or_cons <;> rfl
  | cons c cs =>
      by_cases hpoint : c = '.'
      · subst hpoint
        rw [List.cons_append, readFraction, readFraction, digits_append h]
        cases digits cs <;> rfl
      · have hnone (more : List Char) : readFraction (c :: more) = some (none, c :: more) := by
          rw [readFraction]
          simpa using hpoint
        rw [List.cons_append, hnone, hnone]
        rfl

theorem readPower_append (h : Stops rest) (cs : List Char) :
    readPower (cs ++ rest) = (readPower cs).map fun (e, more) => (e, more ++ rest) := by
  cases cs with
  | nil => obtain rfl | ⟨more, rfl | rfl | rfl⟩ := h.eq_nil_or_cons <;> rfl
  | cons c cs =>
      have hmark (hc : c = 'e' ∨ c = 'E') (more : List Char) : readPower (c :: more) =
          (Decimal.readExponent more).map fun (e, cs) => (some e, cs) := by
        rcases hc with rfl | rfl <;> rfl
      by_cases hc : c = 'e' ∨ c = 'E'
      · rw [List.cons_append, hmark hc, hmark hc, readExponent_append h]
        cases Decimal.readExponent cs <;> rfl
      · have hnone (more : List Char) : readPower (c :: more) = some (none, c :: more) := by
          rw [readPower]
          · simpa using fun heq => hc (.inl heq)
          · simpa using fun heq => hc (.inr heq)
        rw [List.cons_append, hnone, hnone]
        rfl

/-- A number is read in the same way where something follows. -/
theorem readNumber_append (h : Stops rest) (cs : List Char) :
    readNumber (α := α) (cs ++ rest) = (readNumber cs).map fun (v, more) => (v, more ++ rest) := by
  rw [readNumber_eq, readNumber_eq, readSign_append h]
  dsimp only
  rw [readWhole_append h]
  cases readWhole (readSign cs).2 with
  | none => rfl
  | some w =>
      simp only [Option.map_some, Option.bind_eq_bind, Option.bind_some]
      rw [readFraction_append h]
      cases readFraction w.2 with
      | none => rfl
      | some f =>
          simp only [Option.map_some, Option.bind_some]
          rw [readPower_append h]
          cases readPower f.2 <;> rfl

theorem readNumber_append_of_eq (h : Stops rest) {cs : List Char} {v : Json α}
    (hread : readNumber cs = some (v, [])) : readNumber (cs ++ rest) = some (v, rest) := by
  rw [readNumber_append h, hread]
  rfl

/-- A number starts with its sign or with a digit. -/
theorem exists_cons_of_readNumber {cs : List Char} {r : Json α × List Char}
    (h : readNumber cs = some r) : ∃ c more, cs = c :: more ∧ (c = '-' ∨ Decimal.isDigit c) := by
  cases cs with
  | nil => cases h
  | cons c more =>
      refine ⟨c, more, rfl, ?_⟩
      by_contra hc
      obtain ⟨hminus, hdigit⟩ := not_or.mp hc
      have hsign : readSign (c :: more) = (false, c :: more) := by
        rw [readSign]
        simpa using hminus
      have hwhole : readWhole (c :: more) = none := by
        rw [readWhole, digits, List.takeWhile_cons_of_neg hdigit]
        rintro _ heq
        exact hdigit ((List.cons.inj heq).1 ▸ rfl)
      rw [readNumber_eq, hsign] at h
      dsimp only at h
      rw [hwhole] at h
      cases h

/-! ### Counts -/

theorem ofDigits_toDigits (n : Nat) : Decimal.ofDigits (Nat.toDigits 10 n) = n := by
  have h := Nat.ofDigitChars_ten_toDigits (n := n)
  rw [Nat.ofDigitChars_eq_foldl] at h
  exact h

theorem isDigit_of_mem_toDigits {n : Nat} {c : Char} (h : c ∈ Nat.toDigits 10 n) :
    Decimal.isDigit c :=
  Nat.isDigit_of_mem_toDigits (by decide) (by decide) h

theorem digitChar_ne_zero : ∀ n < 10, 0 < n → Nat.digitChar n ≠ '0' := by
  decide

/-- The digits of a positive number do not start with a zero. -/
theorem head?_toDigits_ne_zero {n : Nat} (h : 0 < n) : (Nat.toDigits 10 n).head? ≠ some '0' := by
  induction n using Nat.strongRecOn with
  | ind n ih =>
      by_cases hlt : n < 10
      · rw [Nat.toDigits_of_lt_base hlt]
        exact fun heq => digitChar_ne_zero n hlt h (Option.some.inj heq)
      · have hfirst := ih (n / 10) (by omega) (by omega)
        rw [Nat.toDigits_of_base_le (by decide) (by omega), List.head?_append]
        cases hdigits : Nat.toDigits 10 (n / 10) with
        | nil => exact absurd hdigits Nat.toDigits_ne_nil
        | cons c cs =>
            rw [hdigits] at hfirst
            exact hfirst

theorem readWhole_toDigits (n : Nat) :
    readWhole (Nat.toDigits 10 n) = some (Nat.toDigits 10 n, []) := by
  rcases Nat.eq_zero_or_pos n with rfl | hpos
  · rfl
  · have hne := head?_toDigits_ne_zero hpos
    have hall : ∀ c ∈ Nat.toDigits 10 n, Decimal.isDigit c := fun c hc => isDigit_of_mem_toDigits hc
    cases hdigits : Nat.toDigits 10 n with
    | nil => exact absurd hdigits Nat.toDigits_ne_nil
    | cons c cs =>
        rw [hdigits] at hne hall
        rw [readWhole, digits, List.takeWhile_eq_self_iff.mpr hall,
          List.dropWhile_eq_nil_iff.mpr hall]
        rintro _ heq
        exact hne (congrArg some (List.cons.inj heq).1)

/-- The digits of a count are read as that count. -/
theorem readNumber_toDigits (n : Nat) :
    readNumber (α := α) (Nat.toDigits 10 n) = some (.integer n, []) := by
  have hsign : readSign (Nat.toDigits 10 n) = (false, Nat.toDigits 10 n) := by
    unfold readSign
    split
    · next cs heq =>
        have hminus : '-' ∈ Nat.toDigits 10 n := heq ▸ List.mem_cons_self
        exact absurd (isDigit_of_mem_toDigits hminus) (by decide)
    · rfl
  rw [readNumber_eq, hsign]
  dsimp only
  rw [readWhole_toDigits]
  have hcount : numberOf (α := α) false (Nat.toDigits 10 n) none none = .integer n := by
    rw [numberOf, ofDigits_toDigits]
    rfl
  exact congrArg (fun v => some (v, [])) hcount

end Roadworks.Json
