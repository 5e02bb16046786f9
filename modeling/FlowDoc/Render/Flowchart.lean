import FlowDoc.Config.Basic
import FlowDoc.Graph.Basic
import FlowDoc.Text.Lines
import FlowDoc.Word

/-!
# Flowcharts

A graph as a mermaid flowchart: a line for each node, a line for each edge, and the definitions of
the style classes. A chart for pages also says what a click on each node calls.

A node is called by the successor of its number, and numbers are words. So the greatest word has no
name: the program stops when it comes to it. Nothing of a chart is put out before all of it is
drawn, and it is drawn only where all nodes in it have names.

## Main definitions

* `nodeKey`: the name of a node within a flowchart, if its number has a successor.
* `flowchart`, `flowchartWithCallbacks`: the texts of the charts of a graph.
* `drawFlowchart`, `drawFlowchartWithCallbacks`: the charts, if all names in them can be formed.
-/

namespace FlowDoc

/-- The program stops, since the successor of a number is no word. -/
structure Overflow where
deriving DecidableEq, Repr

/-- How the name of a node within a flowchart is written. Names count from one. -/
def keyText (id : NodeId) : String :=
  "N" ++ toString (id + 1)

/-- The name of a node within a flowchart. -/
def nodeKey (id : NodeId) : Except Overflow String :=
  if id + 1 < wordBound then .ok (keyText id) else .error ⟨⟩

/-- A text that names the nodes of these numbers, or the stop at a node that has no name. -/
def naming (ids : List NodeId) (text : String) : Except Overflow String := do
  let _ ← ids.mapM nodeKey
  return text

/-- The numbers of the nodes that a chart names: each of the nodes, and its children. -/
def Graph.shownIds (g : Graph) : List NodeId :=
  g.nodes.toList.flatMap fun node => node.id :: node.children.toList

namespace Flowchart

/-- The definitions of the style classes. -/
def classDefinitions : List String :=
  ["classDef C1 fill:#DDF0FF, stroke:#0078D4",
   "classDef C2 fill:#e8ede2, stroke:#47711C",
   "classDef C3 fill:#e7dcfd, stroke:#B796F9",
   "classDef C4 fill:#fef4e8, stroke:#F9981E"]

/-- The first line of a chart. -/
def header (config : Config) : String :=
  "flowchart " ++ config.direction.word

/-- The line of a node: its key, its label in the brackets of its style, and its class. -/
def nodeLine (config : Config) (node : Node) : String :=
  let style := config.styleOf node.nodeType
  let (opening, closing) := style.shape
  let classMark := match style.className? with
    | some name => ":::" ++ name
    | none => ""
  keyText node.id ++ opening ++ node.name ++ closing ++ classMark

/-- The stream of the last edge between two nodes. -/
def streamOf? (g : Graph) (source target : NodeId) : Option String :=
  (g.edges.findRev? fun e => e.source = source ∧ e.target = target).bind (·.stream)

/-- The line of the edge from one node to another. -/
def edgeLine (g : Graph) (source target : NodeId) : String :=
  match streamOf? g source target with
  | some stream => keyText source ++ "---|" ++ stream ++ "|" ++ keyText target
  | none => keyText source ++ "---" ++ keyText target

/-- The lines of the edges, by the node that they start from. -/
def edgeLines (g : Graph) : List String :=
  g.nodes.toList.flatMap fun node => node.children.toList.map (edgeLine g node.id)

/-- The line that binds clicks on a node. -/
def clickLine (config : Config) (node : Node) : String :=
  "click " ++ keyText node.id ++ " " ++ config.clickCallback

/-- The lines of a chart without callbacks. -/
def lines (g : Graph) (config : Config) : List String :=
  [header config] ++ g.nodes.toList.map (nodeLine config) ++ edgeLines g ++ classDefinitions

/-- The lines of the callbacks. -/
def clickLines (g : Graph) (config : Config) : List String :=
  g.nodes.toList.map (clickLine config)

end Flowchart

open Flowchart

/-- The text of the flowchart of a graph. -/
def flowchart (g : Graph) (config : Config) : String :=
  Text.unlines (lines g config)

/-- The text of the flowchart of a graph, with a callback for each node. -/
def flowchartWithCallbacks (g : Graph) (config : Config) : String :=
  Text.unlines (lines g config ++ clickLines g config)

/-- The flowchart of a graph. -/
def drawFlowchart (g : Graph) (config : Config) : Except Overflow String :=
  naming g.shownIds (flowchart g config)

/-- The flowchart of a graph, with a callback for each node. -/
def drawFlowchartWithCallbacks (g : Graph) (config : Config) : Except Overflow String :=
  naming g.shownIds (flowchartWithCallbacks g config)

end FlowDoc
