import Roadworks.Json.Value
import Roadworks.Decimal.Reader
/-!
Reading a document from text. The grammar is the strict one: no leading zeros, no raw control
characters in strings, nothing after the value. Numbers out of range and broken escapes are left in
the tree for whoever uses them to refuse.
-/

namespace Roadworks.Json

/-- The four kinds of white space between tokens. -/
def isSpace (c : Char) : Bool := c == ' ' || c == '\t' || c == '\n' || c == '\r'

/-- Drops white space before the next token. -/
def skip (cs : List Char) : List Char := cs.dropWhile isSpace

/-- The value of a hexadecimal digit. -/
def hexDigit (c : Char) : Option Nat :=
  if '0' ≤ c ∧ c ≤ '9' then some (c.toNat - 48)
  else if 'a' ≤ c ∧ c ≤ 'f' then some (c.toNat - 87)
  else if 'A' ≤ c ∧ c ≤ 'F' then some (c.toNat - 55)
  else none

/-- Four hexadecimal digits. -/
def hexUnit : List Char → Option (Nat × List Char)
  | a :: b :: c :: d :: rest => do
    let a ← hexDigit a
    let b ← hexDigit b
    let c ← hexDigit c
    let d ← hexDigit d
    return (((a * 16 + b) * 16 + c) * 16 + d, rest)
  | _ => none

/-- The unit is the first half of a surrogate pair. -/
def isHigh (n : Nat) : Bool := 0xD800 ≤ n && n < 0xDC00

/-- The unit is the second half of a surrogate pair. -/
def isLow (n : Nat) : Bool := 0xDC00 ≤ n && n < 0xE000

/-- The character of a one-letter escape. -/
def escaped : Char → Option Char
  | '"' => some '"'
  | '\\' => some '\\'
  | '/' => some '/'
  | 'b' => some '\x08'
  | 'f' => some '\x0c'
  | 'n' => some '\n'
  | 'r' => some '\r'
  | 't' => some '\t'
  | _ => none

/-- The character that two halves of a surrogate pair make. -/
def joinPair (high low : Nat) : Char :=
  Char.ofNat (0x10000 + (high - 0xD800) * 0x400 + (low - 0xDC00))

/-- Reads a string after its opening quote. The text is `none` once an escape was half a pair; `fuel`
is at least the number of characters. -/
def readString (fuel : Nat) (cs : List Char) : Option (Option (List Char) × List Char) :=
  match fuel, cs with
  | 0, _ | _, [] => none
  | _, '"' :: rest => some (some [], rest)
  | fuel + 1, '\\' :: 'u' :: rest => do
    let (n, rest) ← hexUnit rest
    let paired : Option (Nat × List Char) := match rest with
      | '\\' :: 'u' :: more => (hexUnit more).filter fun (low, _) => isLow low
      | _ => none
    if isHigh n then
      match paired with
      | some (low, rest) =>
        let (s, rest) ← readString fuel rest
        return (s.map (joinPair n low :: ·), rest)
      | none => return (none, (← readString fuel rest).2)
    else if isLow n then return (none, (← readString fuel rest).2)
    else
      let (s, rest) ← readString fuel rest
      return (s.map (Char.ofNat n :: ·), rest)
  | fuel + 1, '\\' :: c :: rest => do
    let c ← escaped c
    let (s, rest) ← readString fuel rest
    return (s.map (c :: ·), rest)
  | fuel + 1, c :: rest =>
    if c.toNat < 0x20 ∨ c = '\\' then none
    else do
      let (s, rest) ← readString fuel rest
      return (s.map (c :: ·), rest)

/-- A run of digits that is not empty. -/
def digits (cs : List Char) : Option (List Char × List Char) :=
  match cs.takeWhile Decimal.isDigit with
  | [] => none
  | ds => some (ds, cs.dropWhile Decimal.isDigit)

/-- Reads a number. Only one without point and exponent is an integer, and a negative zero is not:
it is a measure whose sign counts. -/
def readNumber {α : Type} [Scalar α] (cs : List Char) : Option (Json α × List Char) := do
  let (negative, cs) := match cs with
    | '-' :: cs => (true, cs)
    | cs => (false, cs)
  let (whole, cs) ← match cs with
    | '0' :: cs => some (['0'], cs)
    | cs => digits cs
  let (fraction, cs) ← match cs with
    | '.' :: cs => (digits cs).map fun (ds, cs) => (some ds, cs)
    | cs => some (none, cs)
  let (exponent, cs) ← match cs with
    | 'e' :: cs | 'E' :: cs => (Decimal.readExponent cs).map fun (e, cs) => (some e, cs)
    | cs => some (none, cs)
  let n := Decimal.ofDigits whole
  if fraction.isNone && exponent.isNone && !(negative && n == 0) then
    return (.integer (if negative then -n else n), cs)
  else
    return (.real (Decimal.value negative whole (fraction.getD []) (exponent.getD 0)), cs)

/-- Reads the quote, the text and the closing quote of a string. -/
def readText (cs : List Char) : Option (Option String × List Char) :=
  match cs with
  | '"' :: rest => (readString (rest.length + 1) rest).map fun (s, rest) => (s.map String.ofList, rest)
  | _ => none

mutual

/-- Reads a value. Every character allows two levels of calls, so `fuel` of twice the length
suffices. -/
def readValue {α : Type} [Scalar α] (fuel : Nat) (cs : List Char) : Option (Json α × List Char) :=
  match fuel with
  | 0 => none
  | fuel + 1 =>
    match skip cs with
    | 'n' :: 'u' :: 'l' :: 'l' :: rest => some (.null, rest)
    | 't' :: 'r' :: 'u' :: 'e' :: rest => some (.bool true, rest)
    | 'f' :: 'a' :: 'l' :: 's' :: 'e' :: rest => some (.bool false, rest)
    | '"' :: rest => (readText ('"' :: rest)).map fun (s, rest) => (.string s, rest)
    | '[' :: rest =>
      match skip rest with
      | ']' :: rest => some (.array [], rest)
      | rest => (readItems fuel rest).map fun (items, rest) => (.array items, rest)
    | '\x7b' :: rest =>
      match skip rest with
      | '\x7d' :: rest => some (.object [], rest)
      | rest => (readFields fuel rest).map fun (fields, rest) => (.object fields, rest)
    | cs => readNumber cs

/-- Reads the items of an array up to its closing bracket. -/
def readItems {α : Type} [Scalar α] (fuel : Nat) (cs : List Char) :
    Option (List (Json α) × List Char) :=
  match fuel with
  | 0 => none
  | fuel + 1 => do
    let (v, rest) ← readValue fuel cs
    match skip rest with
    | ']' :: rest => return ([v], rest)
    | ',' :: rest =>
      let (items, rest) ← readItems fuel rest
      return (v :: items, rest)
    | _ => none

/-- Reads the fields of an object up to its closing brace. -/
def readFields {α : Type} [Scalar α] (fuel : Nat) (cs : List Char) :
    Option (List (Option String × Json α) × List Char) :=
  match fuel with
  | 0 => none
  | fuel + 1 => do
    let (name, rest) ← readText (skip cs)
    match skip rest with
    | ':' :: rest =>
      let (v, rest) ← readValue fuel rest
      match skip rest with
      | '\x7d' :: rest => return ([(name, v)], rest)
      | ',' :: rest =>
        let (fields, rest) ← readFields fuel rest
        return ((name, v) :: fields, rest)
      | _ => none
    | _ => none

end

/-- Reads a whole text as one value. -/
def read {α : Type} [Scalar α] (s : String) : Option (Json α) :=
  match readValue (2 * s.length + 2) s.toList with
  | some (v, rest) => if (skip rest).isEmpty then some v else none
  | none => none

end Roadworks.Json
