import Roadworks.Json.Value
import Roadworks.Decimal.Layout
/-!
Writing a document as text: on one line, or one item to a line with two blanks for each level.
-/

namespace Roadworks.Json

/-- The two hexadecimal digits of a control character. -/
def hexPair (n : Nat) : List Char := [Nat.digitChar (n / 16), Nat.digitChar (n % 16)]

/-- A character inside a string: only quotes, backslashes and control characters are escaped. -/
def escape (c : Char) : List Char :=
  match c with
  | '"' => ['\\', '"']
  | '\\' => ['\\', '\\']
  | '\x08' => ['\\', 'b']
  | '\x0c' => ['\\', 'f']
  | '\n' => ['\\', 'n']
  | '\r' => ['\\', 'r']
  | '\t' => ['\\', 't']
  | c => if c.toNat < 0x20 then '\\' :: 'u' :: '0' :: '0' :: hexPair c.toNat else [c]

/-- A string in quotes. -/
def quote (s : String) : String := "\"" ++ .ofList (s.toList.flatMap escape) ++ "\""

/-- A number of a document; what is not finite has none. -/
def measureText (x : Float) : String :=
  if x.isFinite then Decimal.Layout.document.render x else "null"

/-- The text of a string that may be unreadable. -/
def stringText (s : Option String) : String := quote (s.getD "")

mutual

/-- The text of a value on one line. -/
def compact : Json Float → String
  | .null => "null"
  | .bool b => if b then "true" else "false"
  | .integer n => toString n
  | .real x => measureText x
  | .string s => stringText s
  | .array items => "[" ++ ",".intercalate (compactItems items) ++ "]"
  | .object fields => "\x7b" ++ ",".intercalate (compactFields fields) ++ "\x7d"

/-- The texts of the items of an array. -/
def compactItems : List (Json Float) → List String
  | [] => []
  | v :: rest => compact v :: compactItems rest

/-- The texts of the fields of an object. -/
def compactFields : List (Option String × Json Float) → List String
  | [] => []
  | (name, v) :: rest => (stringText name ++ ":" ++ compact v) :: compactFields rest

end

/-- A line end and the blanks of a level. -/
def newline (level : Nat) : String := "\n" ++ .ofList (List.replicate (2 * level) ' ')

/-- Entries between two brackets, each on a line of its own one level further in. -/
def block (left right : String) (level : Nat) (entries : List String) : String :=
  if entries.isEmpty then left ++ right
  else left ++ newline (level + 1) ++ ("," ++ newline (level + 1)).intercalate entries
    ++ newline level ++ right

mutual

/-- The text of a value over several lines, whose first one stands at the given level. -/
def pretty (level : Nat) : Json Float → String
  | .null => "null"
  | .bool b => if b then "true" else "false"
  | .integer n => toString n
  | .real x => measureText x
  | .string s => stringText s
  | .array items => block "[" "]" level (prettyItems (level + 1) items)
  | .object fields => block "\x7b" "\x7d" level (prettyFields (level + 1) fields)

/-- The texts of the items of an array. -/
def prettyItems (level : Nat) : List (Json Float) → List String
  | [] => []
  | v :: rest => pretty level v :: prettyItems level rest

/-- The texts of the fields of an object. -/
def prettyFields (level : Nat) : List (Option String × Json Float) → List String
  | [] => []
  | (name, v) :: rest => (stringText name ++ ": " ++ pretty level v) :: prettyFields level rest

end

end Roadworks.Json
