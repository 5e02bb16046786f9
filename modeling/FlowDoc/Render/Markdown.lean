import FlowDoc.Render.Flowchart
import FlowDoc.Text.Case

/-!
# Markdown documents

A markdown document has a section for each node, which links to the nodes that it reads from and
that read from it, and then the flowchart.

## Main definitions

* `anchor`: the anchor of a node's heading.
* `markdown`: the text of the document of a graph.
* `drawMarkdown`: the document, if all nodes in its flowchart have names.
-/

namespace FlowDoc

/-- The anchor of a heading: its text in lower case, with hyphens for blanks. -/
def anchor (name : String) : String :=
  String.ofList ((Text.lower name).toList.map fun c => if c = ' ' then '-' else c)

namespace Markdown

/-- A link to the section of a node. -/
def link (node : Node) : String :=
  "[" ++ node.name ++ "](#" ++ anchor node.name ++ ")"

/-- A line of links under a title, left out when there are none. -/
def linkLine (title : String) (nodes : List Node) : String :=
  match nodes with
  | [] => ""
  | nodes => title ++ ": " ++ " ".intercalate (nodes.map link) ++ "\n"

/-- What stands under the heading of a node that has a description. -/
def describe : Option String → String
  | some text => text ++ "\n\n"
  | none => ""

/-- The section of a node. -/
def nodeSection (g : Graph) (config : Config) (node : Node) : String :=
  "### " ++ node.name ++ "\n" ++ describe node.description ++
    "Type: " ++ config.labelOf node.nodeType ++ "\n" ++
    linkLine "Input" (g.parentsOf node.id) ++ linkLine "Output" (g.childrenOf node.id) ++ "\n"

end Markdown

/-- The text of the markdown document of a graph. -/
def markdown (g : Graph) (config : Config) : String :=
  "## Nodes\n\n" ++ String.join (g.nodes.toList.map (Markdown.nodeSection g config)) ++
    "\n## Flowchart\n\n::: mermaid\n" ++ flowchart g config ++ ":::\n"

/-- The markdown document of a graph. -/
def drawMarkdown (g : Graph) (config : Config) : Except Overflow String :=
  naming g.shownIds (markdown g config)

end FlowDoc
