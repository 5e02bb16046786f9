import FlowDoc.Script.Statement

/-!
# Declarations

A declaration is a record that was read to the end: its payload is a bag of attributes. Reading a
record also tells what was passed over in it.

## Main definitions

* `Declaration`: a node as the script declares it.
* `Declaration.ofRecord`: reads a record.
-/

namespace FlowDoc.Script

/-- A node as the script declares it. -/
structure Declaration where
  name : String
  nodeType : String
  /-- The references to the nodes that it reads from, with their selectors. -/
  inputs : List String := []
  attributes : Bag := {}
  span : Span := {}
deriving DecidableEq, Repr

namespace Declaration

/-- What was passed over in the payload of a node. -/
def findings (name : String) (s : Payload.Scan) : List Finding :=
  (if s.trailing = "" then [] else [.trailingContent name (Text.trimmed s.trailing)]) ++
    s.keyless.map fun value => .emptyAttributeKey name value

/-- Reads a record to the end, with the warnings about it. -/
def ofRecord (r : Record) : Except ScriptError (Declaration × List Warning) := do
  let s ← Statement.ofRecord r
  match Payload.scan (.ofType s.nodeType) s.payload with
  | .error e => .error (.unbalancedBrackets s.name (.unreadable e) r.span)
  | .ok payload =>
    if payload.closed then
      .ok
        ({ name := s.name
           nodeType := s.nodeType
           inputs := s.inputs
           attributes := payload.attributes
           span := r.span },
         (findings s.name payload).map fun finding => ⟨finding, r.span⟩)
    else
      .error (.unbalancedBrackets s.name .notClosed r.span)

end Declaration

end FlowDoc.Script
