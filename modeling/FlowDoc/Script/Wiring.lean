import Std.Data.HashMap
import FlowDoc.Graph.Basic
import FlowDoc.Script.Declaration

/-!
# Wiring declarations into a graph

All nodes are declared first, so that a node may read from one that is declared after it, or from
itself. Then the references of each declaration are resolved, in order, through an index of the
names.

## Main definitions

* `Wiring`: a graph under construction with the index of its names.
* `Wiring.declare`, `Wiring.wire`: the two passes over one declaration.
* `graphOf`: the graph of a list of declarations, or the first fault in it.
-/

namespace FlowDoc.Script

/-- A graph under construction. -/
structure Wiring where
  graph : Graph := {}
  /-- The number of the node with each name. -/
  index : Std.HashMap String NodeId := {}

namespace Wiring

/-- Adds the node of a declaration, unless its name is taken. -/
def declare (w : Wiring) (d : Declaration) : Except ScriptError Wiring :=
  match w.index[d.name]? with
  | some earlier =>
    let first := ((w.graph.node? earlier).map (·.span)).getD {}
    .error (.duplicateNodeName d.name d.span first)
  | none =>
    .ok
      { graph := w.graph.addNode d.name d.nodeType d.attributes d.span
        index := w.index.insert d.name w.graph.size }

/-- Draws the edge of one reference of the node numbered `id`, unless no node has its name. -/
def wireInput (id : NodeId) (d : Declaration) (w : Wiring) (reference : String) :
    Except ScriptError Wiring :=
  match w.index[canonicalName reference]? with
  | some parent =>
    .ok { w with graph := w.graph.connect parent id (streamSelector reference) }
  | none => .error (.unresolvedReference d.name reference d.span)

/-- Draws the edges of all references of a declaration, which `id` numbers. -/
def wire (w : Wiring) : NodeId × Declaration → Except ScriptError Wiring
  | (id, d) => d.inputs.foldlM (wireInput id d) w

end Wiring

/-- The graph of a list of declarations. -/
def graphOf (ds : List Declaration) : Except ScriptError Graph := do
  let declared ← ds.foldlM Wiring.declare {}
  let wired ← (ds.zipIdx.map fun (d, id) => (id, d)).foldlM Wiring.wire declared
  return wired.graph

end FlowDoc.Script
