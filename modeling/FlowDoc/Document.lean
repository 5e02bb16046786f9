import FlowDoc.Json.Reader
import FlowDoc.Text.Blank

/-!
# Data flow documents

A document is a JSON value that holds a script under `properties.typeProperties`, with the names
and descriptions around it. Keys are found whatever the case of their Latin letters. What is
missing or of another kind counts as not there.

## Main definitions

* `Document`: the parts of a document that matter here.
* `Document.ofJson`: finds them in a value.
* `Document.read`: finds them in a text.
-/

namespace FlowDoc

/-- The parts of a data flow document that matter here. -/
structure Document where
  name : Option String := none
  description : Option String := none
  script : String := ""
  /-- Names of nodes and what is said about them, in the order of the document. -/
  descriptions : List (String × String) := []
deriving DecidableEq, Repr, Inhabited

namespace Document

/-- The arrays whose entries describe nodes. -/
def describedSections : List String :=
  ["sources", "sinks", "transformations"]

/-- The script: the text of `script`, or else the texts among `scriptLines`, one a line. -/
def scriptOf (typeProperties : Json) : String :=
  match typeProperties.stringField? "script" with
  | some script => script
  | none =>
    let lines := ((typeProperties.field? "scriptLines").bind Json.array?).getD []
    "\n".intercalate (lines.filterMap Json.string?)

/-- What an entry says about a node, unless it says nothing. -/
def descriptionOf? (entry : Json) : Option (String × String) := do
  let name ← entry.stringField? "name"
  let description ← entry.stringField? "description"
  if Text.blank description.toList then none else some (name, description)

/-- What is said about nodes, section by section. -/
def descriptionsOf (typeProperties : Json) : List (String × String) :=
  describedSections.flatMap fun key =>
    (((typeProperties.field? key).bind Json.array?).getD []).filterMap descriptionOf?

/-- The parts of a document that matter here. -/
def ofJson (root : Json) : Document :=
  let properties := root.field? "properties"
  let typeProperties := properties.bind (·.field? "typeProperties")
  { name := root.stringField? "name"
    description := properties.bind (·.stringField? "description")
    script := (typeProperties.map scriptOf).getD ""
    descriptions := (typeProperties.map descriptionsOf).getD [] }

/-- Reads a document. -/
def read (text : String) : Except Json.Misreading Document :=
  (Json.read text).map ofJson

end Document

end FlowDoc
