import FlowDoc.Json.Printer
import FlowDoc.Render.Flowchart
import FlowDoc.Text.Cut

/-!
# Web pages

A page shows the flowchart and, on a click, a summary of the node. It is made from a template with
placeholders for the chart, the summaries and the name of the function that a click calls.

## Main definitions

* `escape`: a text as the content of an element.
* `nodeSummary`, `nodeInfo`: the summary of a node, and those of all nodes.
* `drawNodeInfo`: the summaries, if all nodes have names.
* `fillTemplate`: puts texts in the place of placeholders, in one pass.
* `page`: the text of the page of a graph.
-/

namespace FlowDoc

namespace Page

/-- How a character is written in the content of an element. -/
def escapeChar (c : Char) : List Char :=
  if c = '&' then ['&', 'a', 'm', 'p', ';']
  else if c = '<' then ['&', 'l', 't', ';']
  else if c = '>' then ['&', 'g', 't', ';']
  else [c]

/-- A text as the content of an element. -/
def escape (s : String) : String :=
  String.ofList (s.toList.flatMap escapeChar)

/-- The paragraph of a description. -/
def describe : Option String → String
  | some text => "<p>" ++ escape text ++ "</p>"
  | none => ""

/-- An attribute as an item of a list. -/
def attributeItem : String × String → String
  | (key, value) => "<li><b>" ++ escape key ++ "</b>: " ++ escape value ++ "</li>"

/-! ## Templates -/

/-- The placeholder of the chart, without its first dollar sign. -/
def chartMark : String := "mermaid$"

/-- The placeholder of the summaries, without its first dollar sign. -/
def infoMark : String := "json$"

/-- The placeholder of the click function, without its first dollar sign. -/
def callbackMark : String := "callback$"

/-- Texts to put in the place of placeholders. -/
abbrev Substitutions := List (String × String)

/-- The text for the first placeholder that stands after a dollar sign, and what follows it. -/
def substitute? (subs : Substitutions) (cs : List Char) : Option (String × List Char) :=
  subs.findSome? fun (mark, value) => (Text.after? mark.toList cs).map fun rest => (value, rest)

theorem length_le_of_substitute? {subs : Substitutions} {cs rest : List Char} {value : String}
    (h : substitute? subs cs = some (value, rest)) : rest.length ≤ cs.length := by
  obtain ⟨⟨mark, v⟩, _, hv⟩ := List.exists_of_findSome?_eq_some h
  obtain ⟨r, hr, heq⟩ := Option.map_eq_some_iff.1 hv
  cases heq
  simp [Text.after?_eq_some_iff.1 hr]

theorem length_lt_of_cut {cs before rest : List Char}
    (h : Text.cut ['$'] cs = some (before, rest)) : rest.length < cs.length := by
  have := congrArg List.length (Text.append_eq_of_cut h)
  simp at this
  omega

/-- Puts texts in the place of placeholders, from dollar sign to dollar sign; what was put in is not
looked at again. -/
def fill (subs : Substitutions) (cs : List Char) : List Char :=
  match _h : Text.cut ['$'] cs with
  | none => cs
  | some (before, rest) =>
    match _hs : substitute? subs rest with
    | some (value, rest') => before ++ value.toList ++ fill subs rest'
    -- A dollar sign that starts no placeholder stands for itself.
    | none => before ++ '$' :: fill subs rest
termination_by cs.length
decreasing_by
  · have := length_lt_of_cut _h
    have := length_le_of_substitute? _hs
    omega
  · exact length_lt_of_cut _h

/-- Whether a template holds a placeholder. -/
def holds (template mark : String) : Bool :=
  (Text.cut ('$' :: mark.toList) template.toList).isSome

/-- The lines of the template of pages that have none of their own. -/
def defaultTemplateLines : List String :=
  ["<!DOCTYPE html>",
   "<html lang=\"en\">",
   "<head>",
   "<meta charset=\"utf-8\">",
   "<title>Data flow</title>",
   "<style>",
   "body \x7b font-family: system-ui, sans-serif; display: flex; gap: 2em; margin: 1em; \x7d",
   "#chart \x7b flex: 3; \x7d",
   "#info \x7b flex: 2; border-left: 1px solid #ccc; padding-left: 1em; \x7d",
   "#info i \x7b display: block; color: #555; margin: 0.3em 0; \x7d",
   "</style>",
   "</head>",
   "<body>",
   "<div id=\"chart\"><pre class=\"mermaid\">",
   "$mermaid$",
   "</pre></div>",
   "<div id=\"info\">Click a node to show its settings.</div>",
   "<script>",
   "const nodeInfo = $json$;",
   "function $callback$(id) \x7b",
   "  document.getElementById(\"info\").innerHTML = nodeInfo[id] || \"\";",
   "\x7d",
   "</script>",
   "<script type=\"module\">",
   "import mermaid from \"https://cdn.jsdelivr.net/npm/mermaid@10/dist/mermaid.esm.min.mjs\";",
   "mermaid.initialize(\x7b startOnLoad: true, securityLevel: \"loose\" \x7d);",
   "</script>",
   "</body>",
   "</html>"]

/-- The template of pages that have none of their own. -/
def defaultTemplate : String :=
  Text.unlines defaultTemplateLines

end Page

open Page

/-- The summary of a node: its name, type and description, and a list of its attributes. -/
def nodeSummary (node : Node) : String :=
  "<b>" ++ escape node.name ++ "</b><i>" ++ escape node.nodeType ++ "</i>" ++
    Page.describe node.description ++
    "<ul>" ++ String.join (node.attributes.entries.map attributeItem) ++ "</ul>"

/-- The summaries of all nodes, under the names of the nodes in the flowchart. -/
def nodeInfo (g : Graph) : Json :=
  .ofMembers (g.nodes.toList.map fun node => (keyText node.id, .string (nodeSummary node)))

/-- The summaries of all nodes, as a text. -/
def drawNodeInfo (g : Graph) : Except Overflow String :=
  naming (g.nodes.toList.map (·.id)) (nodeInfo g).compact

/-- Puts texts in the place of the placeholders of a template. -/
def fillTemplate (template chart info callback : String) : String :=
  String.ofList
    (fill [(chartMark, chart), (infoMark, info), (callbackMark, callback)] template.toList)

/-- The text of the page of a graph, or the placeholder that its template lacks. -/
def page (g : Graph) (config : Config) (template : String) : Except String String :=
  if !holds template chartMark then .error ("$" ++ chartMark)
  else if !holds template infoMark then .error ("$" ++ infoMark)
  else
    .ok (fillTemplate template (flowchartWithCallbacks g config) (nodeInfo g).compact
      config.clickCallback)

end FlowDoc
