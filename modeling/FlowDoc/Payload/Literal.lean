/-!
# Literal spans of a payload

Quoted strings and comments are *literal spans*: brackets, commas and quotes inside them have no
meaning of their own. A single quote opens a string, which ends at the next single quote without
a backslash escape; a slash and a star that follow each other directly open a comment, which ends
at a star and a slash that follow each other directly. Line breaks are layout and are dropped,
though they keep the two characters of a comment mark apart.

## Main definitions

* `Literal`: where a reader stands with respect to literal spans.
* `mark`: the characters of a payload, each marked as literal or not.
-/

namespace FlowDoc.Payload

/-- The single quote, which opens and closes a string. -/
def quoteMark : Char := '\x27'

/-- The kind of literal span that a place in a payload belongs to. -/
inductive Literal where
  /-- No literal span. -/
  | outside
  /-- A quoted string; `escaped` says that a backslash stands directly before. -/
  | quote (escaped : Bool)
  /-- A comment. -/
  | comment
deriving DecidableEq, Repr

/-- A character of a payload and whether it belongs to a literal span, marks included. -/
structure Marked where
  char : Char
  literal : Bool
deriving DecidableEq, Repr

/-- Line feeds and carriage returns. -/
def isLineBreak (c : Char) : Bool :=
  c == '\n' || c == '\r'

/-- Whether a character belongs to a literal span, and the span of what follows it, when the two
characters of a comment mark do not stand here. -/
def Literal.step : Literal → Char → Bool × Literal
  | .outside, c => if c = quoteMark then (true, .quote false) else (false, .outside)
  | .comment, _ => (true, .comment)
  | .quote escaped, c =>
    if c = quoteMark then (true, if escaped then .quote false else .outside)
    else (true, .quote (c = '\\' && !escaped))

/-- The characters of a text that starts in the given literal span, marked and without line
breaks, and the literal span at its end. -/
def mark : Literal → List Char → List Marked × Literal
  | literal, [] => ([], literal)
  -- The two characters of a comment mark are looked for before line breaks are dropped.
  | .outside, '/' :: '*' :: cs =>
    let (marked, last) := mark .comment cs
    (⟨'/', true⟩ :: ⟨'*', true⟩ :: marked, last)
  | .comment, '*' :: '/' :: cs =>
    let (marked, last) := mark .outside cs
    (⟨'*', true⟩ :: ⟨'/', true⟩ :: marked, last)
  | literal, c :: cs =>
    if isLineBreak c then mark literal cs
    else
      let (inside, next) := literal.step c
      let (marked, last) := mark next cs
      (⟨c, inside⟩ :: marked, last)

end FlowDoc.Payload
