import FlowDoc.Json.Value
import FlowDoc.Text.Hex

/-!
# Writing JSON

## Main definitions

* `Json.quote`: a text as a string literal.
* `Json.compact`: a value on one line, without blanks.
* `Json.pretty`: a value over many lines, two blanks deeper for each level.
-/

namespace FlowDoc.Json

/-- How a character is written inside a string literal: the quote, the backslash and the control
characters are escaped, everything else stands for itself. -/
def escapeChar (c : Char) : List Char :=
  if c = '\"' then ['\\', '\"']
  else if c = '\\' then ['\\', '\\']
  else if c = '\x08' then ['\\', 'b']
  else if c = '\x09' then ['\\', 't']
  else if c = '\x0a' then ['\\', 'n']
  else if c = '\x0c' then ['\\', 'f']
  else if c = '\x0d' then ['\\', 'r']
  else if c.toNat < 0x20 then
    ['\\', 'u', '0', '0', Text.hexDigit (c.toNat / 16), Text.hexDigit (c.toNat % 16)]
  else [c]

/-- A text as a string literal. -/
def quote (s : String) : String :=
  "\"" ++ String.ofList (s.toList.flatMap escapeChar) ++ "\""

/-- The text of a number. -/
def numberText : Number → String
  | .natural n => toString n
  | .written text => text

/-- The text of a truth value. -/
def boolText : Bool → String
  | true => "true"
  | false => "false"

mutual

/-- A value on one line. -/
def compact : Json → String
  | .null => "null"
  | .bool b => boolText b
  | .number n => numberText n
  | .string s => quote s
  | .array items => "[" ++ ",".intercalate (compactItems items) ++ "]"
  | .object members => "\x7b" ++ ",".intercalate (compactMembers members) ++ "\x7d"

/-- Each item on one line. -/
def compactItems : List Json → List String
  | [] => []
  | item :: rest => compact item :: compactItems rest

/-- Each member on one line. -/
def compactMembers : List (String × Json) → List String
  | [] => []
  | (key, value) :: rest => (quote key ++ ":" ++ compact value) :: compactMembers rest

end

/-- A line break and the blanks of a level. -/
def newLine (level : Nat) : String :=
  "\n" ++ String.ofList (List.replicate (2 * level) ' ')

/-- The parts of a container, each on a line of its own, between its brackets. -/
def enclose (level : Nat) (opening closing : String) (parts : List String) : String :=
  match parts with
  | [] => opening ++ closing
  | parts =>
    opening ++ newLine (level + 1) ++ ("," ++ newLine (level + 1)).intercalate parts ++
      newLine level ++ closing

mutual

/-- A value over many lines, whose first line stands at the given level. -/
def prettyAt (level : Nat) : Json → String
  | .null => "null"
  | .bool b => boolText b
  | .number n => numberText n
  | .string s => quote s
  | .array items => enclose level "[" "]" (prettyItems (level + 1) items)
  | .object members => enclose level "\x7b" "\x7d" (prettyMembers (level + 1) members)

/-- Each item over many lines. -/
def prettyItems (level : Nat) : List Json → List String
  | [] => []
  | item :: rest => prettyAt level item :: prettyItems level rest

/-- Each member over many lines. -/
def prettyMembers (level : Nat) : List (String × Json) → List String
  | [] => []
  | (key, value) :: rest =>
    (quote key ++ ": " ++ prettyAt level value) :: prettyMembers level rest

end

/-- A value over many lines. -/
def pretty (json : Json) : String :=
  prettyAt 0 json

end FlowDoc.Json
