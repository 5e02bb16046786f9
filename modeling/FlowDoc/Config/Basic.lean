import FlowDoc.Config.Style
import FlowDoc.Text.Case

/-!
# Configuration of the documents

## Main definitions

* `Config`: how documents are written.
* `Config.styleOf`, `Config.labelOf`: the style and the label of a node type.
-/

namespace FlowDoc

/-- The direction in which a flowchart grows. -/
inductive Direction where
  | td | tb | bt | lr | rl
deriving DecidableEq, Repr

namespace Direction

/-- The word for a direction. -/
def word : Direction → String
  | .td => "TD"
  | .tb => "TB"
  | .bt => "BT"
  | .lr => "LR"
  | .rl => "RL"

/-- The direction that a word stands for. -/
def ofWord? (word : String) : Option Direction :=
  [.td, .tb, .bt, .lr, .rl].find? (·.word == word)

end Direction

/-- How documents are written. -/
structure Config where
  direction : Direction := .td
  /-- The function that a click on a node calls. -/
  clickCallback : String := "doCb"
  /-- The file that holds the template of pages. -/
  htmlTemplate : Option String := none
  /-- The labels of node types, in the order of the types. -/
  typeLabels : List (String × String) := []
  /-- The styles of node types, in the order of the types. -/
  typeStyles : List (String × Style) := []
deriving DecidableEq, Repr

namespace Config

/-- The style of a node type: the configured one, or else its own. -/
def styleOf (config : Config) (nodeType : String) : Style :=
  (config.typeStyles.lookup nodeType).getD (.ofType nodeType)

/-- The label of a node type that has none configured. -/
def ownLabel : String → String
  | "derive" => "Derived column"
  | "alterRow" => "Alter row"
  | nodeType => Text.capitalize nodeType

/-- The label of a node type: the configured one, or else its own. -/
def labelOf (config : Config) (nodeType : String) : String :=
  (config.typeLabels.lookup nodeType).getD (ownLabel nodeType)

end Config

end FlowDoc
