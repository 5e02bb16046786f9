/-!
# Lines

A text is cut into lines at its line feeds. A list of lines is written with a line feed after each,
so that a list that is empty is written as the empty text.

## Main definitions

* `lines`: the parts of a text between its line feeds.
* `unlines`: the text of a list of lines.
* `indentRest`: a text with its lines after the first one indented.
-/

namespace FlowDoc.Text

/-- The parts of a text between its line feeds, of which there is at least one. -/
def lines (cs : List Char) : List (List Char) :=
  cs.splitOn '\n'

/-- Lines as a text, each ended by a line feed. -/
def unlines (lines : List String) : String :=
  String.join (lines.map (· ++ "\n"))

/-- A text whose lines after the first one are indented. -/
def indentRest (indent text : String) : String :=
  ("\n" ++ indent).intercalate ((lines text.toList).map String.ofList)

end FlowDoc.Text
