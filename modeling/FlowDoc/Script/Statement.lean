import FlowDoc.Reference
import FlowDoc.Script.Record

/-!
# Statements

A record read as a statement: `inputs type(payload) ~> name`. The words before the first opening
bracket are the references to the nodes that are read from and, last, the node type; commas between
them mean nothing.

## Main definitions

* `Statement`: the parts of a record.
* `Statement.ofRecord`: reads a record, or says what it lacks.
-/

namespace FlowDoc.Script

/-- The parts of a record. -/
structure Statement where
  /-- The name of the node, without its selector. -/
  name : String
  /-- Everything before the first opening bracket. -/
  definition : String
  /-- The references to other nodes, with their selectors. -/
  inputs : List String
  nodeType : String
  /-- Everything after the first opening bracket. -/
  payload : String
deriving DecidableEq, Repr

namespace Statement

/-- The words of a definition, in which commas mean nothing. -/
def definitionWords (definition : List Char) : List String :=
  (Text.words (definition.filter (· != ','))).map String.ofList

/-- Reads a record as a statement. -/
def ofRecord (r : Record) : Except ScriptError Statement :=
  let name := canonicalName r.label
  if name = "" then
    .error (.malformedRecord r.label .missingName r.span)
  else
    match Text.cut ['('] r.body.toList with
    | none => .error (.malformedRecord name .noOpening r.span)
    | some (definition, payload) =>
      let words := definitionWords definition
      match words.getLast? with
      | none => .error (.malformedRecord name .missingType r.span)
      | some nodeType =>
        .ok
          { name
            definition := String.ofList definition
            inputs := words.dropLast
            nodeType
            payload := String.ofList payload }

end Statement

end FlowDoc.Script
