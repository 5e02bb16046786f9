import FlowDoc.Bag
import FlowDoc.Payload.Literal
import FlowDoc.Text.Blank
import FlowDoc.Text.Cut

/-!
# Reading a payload

A payload such as `output(id as integer, name as string), format: 'csv')` is read in one pass over
its marked characters. Round and square brackets share one depth. Outside brackets a bracket turns
the text before it into a key and the text inside it into the value; a comma ends a field, and a
field with one colon is a key and its value, any other field a value without a key. The closing
bracket at depth zero closes the whole payload.

A payload may be read *verbatim* instead, as one expression that is a value without a key.

## Main definitions

* `Reading`: whether a payload is read as pairs or verbatim.
* `Scan`: what a payload holds.
* `scan`: reads a payload.
* `ScanError`: why a payload cannot be read.
-/

namespace FlowDoc.Payload

/-- Why a payload cannot be read. -/
inductive ScanError where
  /-- A closing bracket follows the one that closed the payload. -/
  | extraClosing (bracket : Char)
  /-- The payload ends inside brackets. -/
  | unclosed (depth : Nat)
  /-- The payload ends inside a quoted string. -/
  | unterminatedString
  /-- The payload ends inside a comment. -/
  | unterminatedComment
deriving DecidableEq, Repr

/-- The wording of a reading error. -/
def ScanError.message : ScanError → String
  | .extraClosing bracket =>
    "closing '" ++ bracket.toString ++ "' after the node content was already closed"
  | .unclosed depth =>
    toString depth ++ " bracket(s) still open at the end of the node content"
  | .unterminatedString => "unterminated string at the end of the node content"
  | .unterminatedComment => "unterminated comment at the end of the node content"

/-- How a payload is read. -/
inductive Reading where
  /-- As keys with values. -/
  | pairs
  /-- As one expression. -/
  | verbatim
deriving DecidableEq, Repr

/-- The node type whose payload is one expression. -/
def filterKeyword : String := "filter"

/-- Filters hold one expression, all other nodes keys with values. -/
def Reading.ofType (nodeType : String) : Reading :=
  if nodeType = filterKeyword then .verbatim else .pairs

/-- What a payload holds. -/
structure Scan where
  attributes : Bag := {}
  /-- Whether the closing bracket of the payload was met. -/
  closed : Bool := false
  /-- The text after that bracket, from its first character that is not blank. -/
  trailing : String := ""
  /-- The bracketed values that had no key. -/
  keyless : List String := []
deriving DecidableEq, Repr

/-- A place in a payload: what was read up to it, the bracket depth, the text of the field in
hand, and the key of the bracket in hand. -/
structure Place where
  done : Scan := {}
  depth : Nat := 0
  field : String := ""
  key : String := ""
deriving DecidableEq, Repr

/-- A text without the colons at its end. -/
def trimColons (cs : List Char) : List Char :=
  (cs.reverse.dropWhile (· == ':')).reverse

/-- The key that the text before a bracket stands for: trimmed and without trailing colons. -/
def bracketKey (text : String) : String :=
  String.ofList (Text.trim (trimColons (Text.trim text.toList)))

/-- What a field without brackets stands for: a key and a value around its only colon, or a value
alone. -/
def fieldEntry (field : String) : String × String :=
  match Text.cut [':'] field.toList with
  | some (key, value) =>
    if value.contains ':' || Text.blank key then (otherKey, field)
    else (String.ofList (Text.trim key), String.ofList (Text.trim value))
  | none => (otherKey, field)

namespace Scan

/-- Adds a bracketed value under its key. -/
def addBracketed (s : Scan) (key value : String) : Scan :=
  let key := bracketKey key
  let value := Text.trimmed value
  if key = "" then
    { s with
      keyless := s.keyless ++ [value]
      attributes := s.attributes.insert otherKey value }
  else
    { s with attributes := s.attributes.insert key value }

/-- Adds a field without brackets, unless it is blank. -/
def addField (reading : Reading) (s : Scan) (field : String) : Scan :=
  let field := Text.trimmed field
  if field = "" then s
  else match reading with
    | .verbatim => { s with attributes := s.attributes.insert otherKey field }
    | .pairs =>
      let (key, value) := fieldEntry field
      { s with attributes := s.attributes.insert key value }

end Scan

namespace Place

/-- One more character of the field in hand. -/
def push (p : Place) (c : Char) : Place :=
  { p with field := p.field.push c }

/-- The end of the field in hand. -/
def endField (reading : Reading) (p : Place) : Place :=
  { p with done := p.done.addField reading p.field, field := "" }

/-- An opening bracket. -/
def openBracket (reading : Reading) (p : Place) (c : Char) : Place :=
  if p.depth = 0 ∧ reading = .pairs then
    { p with key := p.field, field := "", depth := 1 }
  else
    { p.push c with depth := p.depth + 1 }

/-- A closing bracket: at depth zero that of the payload itself. -/
def closeBracket (reading : Reading) (p : Place) (c : Char) : Place :=
  match p.depth with
  | 0 =>
    let p := p.endField reading
    { p with done.closed := true }
  | depth + 1 =>
    if depth = 0 ∧ reading = .pairs then
      { p with depth := 0, done := p.done.addBracketed p.key p.field, key := "", field := "" }
    else
      { p.push c with depth }

/-- A character before the closing bracket of the payload. -/
def within (reading : Reading) (p : Place) (m : Marked) : Place :=
  if m.literal then p.push m.char
  else match m.char with
    | '(' | '[' => p.openBracket reading m.char
    | ')' | ']' => p.closeBracket reading m.char
    | ',' => if p.depth = 0 ∧ reading = .pairs then p.endField reading else p.push ','
    | c => p.push c

/-- A character after the closing bracket of the payload. -/
def beyond (p : Place) (m : Marked) : Except ScanError Place :=
  if !m.literal && (m.char == ')' || m.char == ']') then
    .error (.extraClosing m.char)
  else if !m.literal && Text.isBlank m.char && p.done.trailing.isEmpty then
    -- The text after the payload starts at its first character that is not blank.
    .ok p
  else
    .ok { p with done.trailing := p.done.trailing.push m.char }

/-- One more character of the payload. -/
def step (reading : Reading) (p : Place) (m : Marked) : Except ScanError Place :=
  if p.done.closed then p.beyond m else .ok (p.within reading m)

/-- What the payload holds once its last character was read. -/
def finish (reading : Reading) (p : Place) (last : Literal) : Except ScanError Scan :=
  match last with
  | .quote _ => .error .unterminatedString
  | .comment => .error .unterminatedComment
  | .outside =>
    if p.depth > 0 then .error (.unclosed p.depth)
    else if p.done.closed then .ok p.done
    else .ok (p.endField reading).done

end Place

/-- Reads a payload. -/
def scan (reading : Reading) (content : String) : Except ScanError Scan := do
  let (marked, last) := mark .outside content.toList
  let place ← marked.foldlM (Place.step reading) {}
  place.finish reading last

/-- The attributes that a node of the given type has when its payload is `content`. -/
def attributes (nodeType content : String) : Except ScanError Bag :=
  return (← scan (.ofType nodeType) content).attributes

end FlowDoc.Payload
