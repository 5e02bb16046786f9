import FlowDoc.Document
import FlowDoc.Graph.Json
import FlowDoc.Script.Parsed

/-!
# Data flows

A data flow is the graph of a script with the name and the descriptions that its document gives.

## Main definitions

* `Dataflow`: a graph, what its document says about it, and the warnings about its script.
* `Dataflow.ofScript`, `Dataflow.ofDocument`: the two ways to read one.
* `LoadError`: why a text is no data flow.
-/

namespace FlowDoc

/-- Why a text is no data flow. -/
inductive LoadError where
  /-- The document is no JSON. -/
  | json (fault : Json.Misreading)
  /-- The script describes no graph. -/
  | script (error : ScriptError)
deriving DecidableEq, Repr

/-- The wording of an error. -/
def LoadError.message : LoadError → String
  | .json fault => "invalid data flow JSON: " ++ fault.message
  | .script error => error.message

/-- A graph, what its document says about it, and the warnings about its script. -/
structure Dataflow where
  name : Option String := none
  description : Option String := none
  graph : Graph
  warnings : List Warning := []
deriving DecidableEq, Repr

namespace Dataflow

/-- Gives the nodes of a graph their descriptions, in order; names of no node are passed over. -/
def describeAll (g : Graph) (descriptions : List (String × String)) : Graph :=
  descriptions.foldl (fun g (name, text) => g.describe (canonicalName name) text) g

/-- Reads a bare script. -/
def ofScript (script : String) : Except LoadError Dataflow :=
  match Script.Parsed.ofScript script with
  | .ok parsed => .ok { graph := parsed.graph, warnings := parsed.warnings }
  | .error e => .error (.script e)

/-- Reads a document with its script. -/
def ofDocument (text : String) : Except LoadError Dataflow :=
  match Document.read text with
  | .error fault => .error (.json fault)
  | .ok document =>
    match Script.Parsed.ofScript document.script with
    | .error e => .error (.script e)
    | .ok parsed =>
      .ok
        { name := document.name
          description := document.description
          graph := describeAll parsed.graph document.descriptions
          warnings := parsed.warnings }

/-- A warning as an object. -/
def warningToJson (w : Warning) : Json :=
  .object
    [("code", .string w.finding.kind), ("message", .string w.finding.message),
     ("span", w.span.toJson)]

/-- A data flow as an object. -/
def toJson (d : Dataflow) : Json :=
  .object
    (optionalMember "name" d.name ++ optionalMember "description" d.description ++
      [("graph", d.graph.toJson), ("warnings", .array (d.warnings.map warningToJson))])

end Dataflow

end FlowDoc
