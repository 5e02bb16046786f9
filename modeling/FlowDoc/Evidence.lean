import FlowDoc.Json.Printer
import FlowDoc.Script.Parsed

/-!
# Evidence

The evidence about a parsed script is a short summary of it: how many nodes and edges it has, which
node types occur, and what the warnings say.

## Main definitions

* `nodeTypes`: the node types of a graph, in order, each once.
* `evidence`: the summary as a document.
-/

namespace FlowDoc

/-- Puts a text in its place among texts that are in order, unless it is there already. -/
def insertText (s : String) : List String → List String
  | [] => [s]
  | t :: rest =>
    if s < t then s :: t :: rest
    else if s = t then t :: rest
    else t :: insertText s rest

/-- The node types of a graph, in order, each once. -/
def nodeTypes (g : Graph) : List String :=
  g.nodes.toList.foldr (fun node types => insertText node.nodeType types) []

/-- What the evidence says about a warning. -/
def warningEvidence (w : Warning) : Json :=
  .ofMembers
    [("code", .string w.finding.code),
     ("line", .natural w.span.start.line),
     ("message", .string w.finding.message)]

/-- The summary of a graph and the warnings about its script. -/
def evidence (p : Script.Parsed) : Json :=
  .ofMembers
    [("node_count", .natural p.graph.size),
     ("edge_count", .natural p.graph.edgeCount),
     ("node_types", .array ((nodeTypes p.graph).map .string)),
     ("warning_count", .natural p.warnings.length),
     ("warnings", .array (p.warnings.map warningEvidence))]

end FlowDoc
