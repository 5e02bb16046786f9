import FlowDoc.Files.Access
import FlowDoc.Render.Markdown
import FlowDoc.Render.Page

/-!
# Documents

## Main definitions

* `Format`: the kinds of documents.
* `RenderError`: why a document cannot be written.
* `renderDocument`: the document of a graph.
-/

namespace FlowDoc

/-- The kinds of documents. -/
inductive Format where
  | markdown
  | mermaid
  | html
deriving DecidableEq, Repr

/-- The extension of the files that hold a kind of document. -/
def Format.extension : Format → String
  | .markdown => "md"
  | .mermaid => "mmd"
  | .html => "html"

/-- Why a document cannot be written. -/
inductive RenderError where
  /-- The template lacks a placeholder. -/
  | missingPlaceholder (placeholder : String)
  /-- The template cannot be read. -/
  | unreadableTemplate (path : String) (error : FileError)
  /-- A node has no name in the flowchart. No script declares so many nodes. -/
  | overflow
deriving DecidableEq, Repr

namespace RenderError

/-- The wording of an error. -/
def message : RenderError → String
  | .missingPlaceholder placeholder => "HTML template has no " ++ placeholder ++ " placeholder"
  | .unreadableTemplate path error =>
    "failed to read HTML template " ++ path ++ ": " ++ error.message
  | .overflow => "attempt to add with overflow"

/-- The failure behind an error. -/
def causes : RenderError → List String
  | .missingPlaceholder _ | .overflow => []
  | .unreadableTemplate _ error => [error.message]

end RenderError

/-- What was drawn, as a document. -/
def drawnDocument (drawn : Except Overflow String) : Except RenderError String :=
  drawn.mapError fun _ => .overflow

/-- The page of a graph with a given template. Placeholders are looked for before anything is
drawn. -/
def renderPage (g : Graph) (config : Config) (template : String) : Except RenderError String :=
  match page g config template with
  | .ok text => drawnDocument (naming g.shownIds text)
  | .error placeholder => .error (.missingPlaceholder placeholder)

/-- The document of a graph; the template of a page is read where the configuration names one. -/
def renderDocument {m : Type → Type} [Monad m] (files : FileAccess m) (g : Graph)
    (config : Config) : Format → m (Except RenderError String)
  | .markdown => return drawnDocument (drawMarkdown g config)
  | .mermaid => return drawnDocument (drawFlowchart g config)
  | .html =>
    match config.htmlTemplate with
    | none => return renderPage g config Page.defaultTemplate
    | some path => do
      match ← files.read path with
      | .ok template => return renderPage g config template
      | .error e => return .error (.unreadableTemplate path e)

end FlowDoc
