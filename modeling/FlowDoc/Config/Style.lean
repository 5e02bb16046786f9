/-!
# Styles of nodes

The flowchart draws a node by its style: as a cylinder, a rounded box or a plain rectangle.

## Main definitions

* `Style`, with its word, class and shape.
* `Style.ofType`: the style of a node type.
-/

namespace FlowDoc

/-- How a node is drawn. -/
inductive Style where
  /-- Sources and sinks. -/
  | c1
  /-- Steps that shape columns. -/
  | c2
  /-- Steps that join or split streams. -/
  | c3
  /-- Steps that pick rows. -/
  | c4
  /-- All other steps. -/
  | plain
deriving DecidableEq, Repr

namespace Style

/-- The style of a node type. -/
def ofType : String → Style
  | "source" | "sink" => .c1
  | "derive" | "aggregate" | "select" | "window" => .c2
  | "lookup" | "union" | "split" | "join" => .c3
  | "filter" | "alterRow" => .c4
  | _ => .plain

/-- The word for a style in a configuration. -/
def word : Style → String
  | .c1 => "C1"
  | .c2 => "C2"
  | .c3 => "C3"
  | .c4 => "C4"
  | .plain => "plain"

/-- The style that a word stands for. -/
def ofWord? (word : String) : Option Style :=
  [.c1, .c2, .c3, .c4, .plain].find? (·.word == word)

/-- The class of a style in the flowchart; plain nodes have none. -/
def className? : Style → Option String
  | .plain => none
  | style => some style.word

/-- The brackets around the label of a node. -/
def shape : Style → String × String
  | .c1 => ("[(", ")]")
  | .c2 | .c3 | .c4 => ("(", ")")
  | .plain => ("[", "]")

end Style

end FlowDoc
