/-!
# Faults in JSON texts

A reader stops at the first fault. It knows how much of the text was left unread there, which gives
the place of the fault: its line, and its column in bytes.

## Main definitions

* `FaultKind`: the ways in which a text is no JSON, with their wording.
* `Fault`: a kind of fault and the number of bytes left unread.
* `Misreading`: a fault with its line and column.
-/

namespace FlowDoc.Json

/-- The ways in which a text is no JSON. -/
inductive FaultKind where
  | valueEnds
  | stringEnds
  | listEnds
  | objectEnds
  | noValue
  | noIdent
  | badNumber
  | numberTooLarge
  | controlCharacter
  | badEscape
  | loneSurrogate
  | pairBroken
  | noListComma
  | noObjectComma
  | noColon
  | keyNotString
  | trailingComma
  | trailingCharacters
  | tooDeep
deriving DecidableEq, Repr

namespace FaultKind

/-- The wording of a fault. -/
def message : FaultKind → String
  | .valueEnds => "EOF while parsing a value"
  | .stringEnds => "EOF while parsing a string"
  | .listEnds => "EOF while parsing a list"
  | .objectEnds => "EOF while parsing an object"
  | .noValue => "expected value"
  | .noIdent => "expected ident"
  | .badNumber => "invalid number"
  | .numberTooLarge => "number out of range"
  | .controlCharacter => "control character (\\u0000-\\u001F) found while parsing a string"
  | .badEscape => "invalid escape"
  | .loneSurrogate => "lone leading surrogate in hex escape"
  | .pairBroken => "unexpected end of hex escape"
  | .noListComma => "expected `,` or `]`"
  | .noObjectComma => "expected `,` or `\x7d`"
  | .noColon => "expected `:`"
  | .keyNotString => "key must be a string"
  | .trailingComma => "trailing comma"
  | .trailingCharacters => "trailing characters"
  | .tooDeep => "recursion limit exceeded"

/-- Whether the text ends too early, and does not go wrong before. -/
def atEnd : FaultKind → Bool
  | .valueEnds | .stringEnds | .listEnds | .objectEnds => true
  | _ => false

end FaultKind

/-- The number of bytes of a text. -/
def byteLength : List Char → Nat
  | [] => 0
  | c :: cs => c.utf8Size + byteLength cs

/-- A fault at the place where a given number of bytes is left unread. -/
structure Fault where
  kind : FaultKind
  left : Nat
deriving DecidableEq, Repr

namespace Fault

/-- A fault directly before the unread text. -/
def before (kind : FaultKind) (rest : List Char) : Fault :=
  ⟨kind, byteLength rest⟩

/-- A fault at the next byte of the unread text, or at its end when there is none. -/
def upon (kind : FaultKind) (rest : List Char) : Fault :=
  ⟨kind, byteLength rest - 1⟩

end Fault

/-- The line that follows `bytes` bytes of a text, counted from one, and the number of those bytes
that stand in it; the text starts in the given line after `column` bytes of it. -/
def placeAfter (line column : Nat) : (bytes : Nat) → List Char → Nat × Nat
  | 0, _ => (line, column)
  | bytes, [] => (line, column + bytes)
  | bytes, c :: cs =>
    if bytes < c.utf8Size then (line, column + bytes)
    else if c = '\n' then placeAfter (line + 1) 0 (bytes - c.utf8Size) cs
    else placeAfter line (column + c.utf8Size) (bytes - c.utf8Size) cs

/-- Why and where a text is no JSON. -/
structure Misreading where
  kind : FaultKind
  line : Nat
  column : Nat
deriving DecidableEq, Repr

namespace Misreading

/-- The fault in a text, with its place. -/
def ofFault (text : List Char) (fault : Fault) : Misreading :=
  let (line, column) := placeAfter 1 0 (byteLength text - fault.left) text
  ⟨fault.kind, line, column⟩

/-- The wording of a fault and its place. -/
def message (m : Misreading) : String :=
  m.kind.message ++ " at line " ++ toString m.line ++ " column " ++ toString m.column

end Misreading

end FlowDoc.Json
