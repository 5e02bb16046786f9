import FlowDoc.Diagnostic
import FlowDoc.Text.Blank
import FlowDoc.Text.Cut
import FlowDoc.Text.Lines

/-!
# Records of a script

A script is cut into records at its marker lines: the lines that hold `~> `. The name of a node
stands after the marker, its definition before it and on the lines since the marker line before.

## Main definitions

* `Record`: one declared node as it is written.
* `Records.ofScript`: the records of a script and the text left over after the last one.
-/

namespace FlowDoc.Script

/-- The mark between the definition of a node and its name. -/
def marker : List Char := ['~', '>', ' ']

/-- One declared node as it is written. -/
structure Record where
  /-- The text after the marker, trimmed. -/
  label : String
  /-- The text before the marker since the marker line before, each line ended by a line feed. -/
  body : String
  /-- The lines of the body. -/
  span : Span
deriving DecidableEq, Repr

/-- A script cut into records. -/
structure Records where
  records : List Record
  /-- The text after the last marker line, unless it is blank. -/
  leftover : Option Warning
deriving DecidableEq, Repr

namespace Records

/-- The text that no marker line follows, on the lines from `first` to `last`. -/
def leftoverOf (first last : Nat) (body : List Char) : Option Warning :=
  match Text.trim body with
  | [] => none
  | text => some ⟨.trailingText (String.ofList text), Span.lines first last⟩

/-- Cuts the lines from number `line` on into records, where `body` holds the lines since line
`first` that belong to no record yet. -/
def ofLines (first line : Nat) (body : List Char) : List (List Char) → Records
  | [] => ⟨[], leftoverOf first (line - 1) body⟩
  | text :: rest =>
    match Text.cut marker text with
    | some (before, label) =>
      let record : Record :=
        { label := String.ofList (Text.trim label)
          body := String.ofList (body ++ before ++ ['\n'])
          span := Span.lines first line }
      -- The next record starts on the line below, with an empty body.
      let later := ofLines (line + 1) (line + 1) [] rest
      { later with records := record :: later.records }
    | none => ofLines first (line + 1) (body ++ text ++ ['\n']) rest

/-- Cuts a script into records, leaving out its tabs. -/
def ofScript (script : String) : Records :=
  ofLines 1 1 [] (Text.lines (script.toList.filter (· != '\t')))

end Records

end FlowDoc.Script
