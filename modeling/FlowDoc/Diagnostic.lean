import FlowDoc.Payload.Scan
import FlowDoc.Span

/-!
# Errors and warnings about a script

An error says why a script describes no graph; a warning says what was passed over. Both carry the
lines of the record that they are about.

## Main definitions

* `ScriptError`, with its `code`, `message`, `span` and `nodeName`.
* `Warning`, a `Finding` with its span.
-/

namespace FlowDoc

/-- Why a record is no declaration. -/
inductive Malformation where
  /-- Nothing names the node. -/
  | missingName
  /-- No bracket opens the node's payload. -/
  | noOpening
  /-- Nothing but commas and blanks stands before the payload. -/
  | missingType
deriving DecidableEq, Repr

/-- The wording of a malformation. -/
def Malformation.reason : Malformation → String
  | .missingName => "missing node name after '~>'"
  | .noOpening => "no '(' opening the node content"
  | .missingType => "missing node type before '('"

/-- Why the brackets of a payload do not balance. -/
inductive Imbalance where
  /-- The payload cannot be read. -/
  | unreadable (error : Payload.ScanError)
  /-- The payload lacks its closing bracket. -/
  | notClosed
deriving DecidableEq, Repr

/-- The wording of an imbalance. -/
def Imbalance.detail : Imbalance → String
  | .unreadable error => error.message
  | .notClosed => "missing closing ')' for the node content"

/-- Why a script describes no graph. -/
inductive ScriptError where
  | malformedRecord (label : String) (fault : Malformation) (span : Span)
  | duplicateNodeName (name : String) (span first : Span)
  | unresolvedReference (node reference : String) (span : Span)
  | unbalancedBrackets (node : String) (fault : Imbalance) (span : Span)
deriving DecidableEq, Repr

namespace ScriptError

/-- The code that identifies the kind of error. -/
def code : ScriptError → String
  | .malformedRecord .. => "dataflow/error/malformed-record"
  | .duplicateNodeName .. => "dataflow/error/duplicate-node-name"
  | .unresolvedReference .. => "dataflow/error/unresolved-reference"
  | .unbalancedBrackets .. => "dataflow/error/unbalanced-brackets"

/-- The lines of the record at fault. -/
def span : ScriptError → Span
  | .malformedRecord _ _ span => span
  | .duplicateNodeName _ span _ => span
  | .unresolvedReference _ _ span => span
  | .unbalancedBrackets _ _ span => span

/-- The node at fault. -/
def nodeName : ScriptError → String
  | .malformedRecord label _ _ => label
  | .duplicateNodeName name _ _ => name
  | .unresolvedReference node _ _ => node
  | .unbalancedBrackets node _ _ => node

/-- What is wrong, without the line. -/
def complaint : ScriptError → String
  | .malformedRecord label fault _ =>
    "node '" ++ label ++ "' is malformed: " ++ fault.reason
  | .duplicateNodeName name _ first =>
    "node name '" ++ name ++ "' was already declared on line " ++ toString first.stop.line
  | .unresolvedReference node reference _ =>
    "node '" ++ node ++ "' reads from unknown node '" ++ reference ++ "'"
  | .unbalancedBrackets node fault _ =>
    "unbalanced brackets in node '" ++ node ++ "': " ++ fault.detail

/-- The wording of an error: the last line of the record, then what is wrong. -/
def message (e : ScriptError) : String :=
  "line " ++ toString e.span.stop.line ++ ": " ++ e.complaint

end ScriptError

/-- What was passed over while reading a script. -/
inductive Finding where
  /-- Text after the last declaration. -/
  | trailingText (text : String)
  /-- Text after the payload of a node. -/
  | trailingContent (node text : String)
  /-- A bracketed value without a key. -/
  | emptyAttributeKey (node value : String)
deriving DecidableEq, Repr

namespace Finding

/-- The name of the kind of finding. -/
def kind : Finding → String
  | .trailingText .. => "TrailingText"
  | .trailingContent .. => "TrailingContent"
  | .emptyAttributeKey .. => "EmptyAttributeKey"

/-- The code that identifies the kind of finding. -/
def code : Finding → String
  | .trailingText .. => "dataflow/warn/trailing-text"
  | .trailingContent .. => "dataflow/warn/trailing-content"
  | .emptyAttributeKey .. => "dataflow/warn/empty-attribute-key"

/-- The wording of a finding. -/
def message : Finding → String
  | .trailingText text => "Ignored text after the last node declaration: " ++ text
  | .trailingContent node text =>
    "Ignored text after the content of node '" ++ node ++ "': " ++ text
  | .emptyAttributeKey node value =>
    "Bracketed value without a key in node '" ++ node ++ "' stored under 'other': " ++ value

end Finding

/-- A finding and the lines that it is about. -/
structure Warning where
  finding : Finding
  span : Span
deriving DecidableEq, Repr

end FlowDoc
