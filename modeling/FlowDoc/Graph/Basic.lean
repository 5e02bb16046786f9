import FlowDoc.Bag
import FlowDoc.Span

/-!
# Data flow graphs

The nodes of a data flow in the order of their declaration, and the edges between them in the
order in which they were drawn. Each node also lists the nodes that it reads from and those that
read from it.

## Main definitions

* `Kind`: the node types that are well known.
* `Node`, `Edge`, `Graph`.
* `Graph.addNode`, `Graph.connect`, `Graph.describe`: the three ways in which a graph grows.
* `Graph.findNode?`, `Graph.parentsOf`, `Graph.childrenOf`: the views of a graph.
-/

namespace FlowDoc

/-- Node types by their meaning. -/
inductive Kind where
  | source | sink | derive | aggregate | select | window | lookup | union | split | join
  | exists | filter | alterRow | sort | pivot | unpivot | flatten | rank | surrogateKey
  | other
deriving DecidableEq, Repr

/-- The kind that a node type names. -/
def Kind.ofKeyword : String → Kind
  | "source" => .source
  | "sink" => .sink
  | "derive" => .derive
  | "aggregate" => .aggregate
  | "select" => .select
  | "window" => .window
  | "lookup" => .lookup
  | "union" => .union
  | "split" => .split
  | "join" => .join
  | "exists" => .exists
  | "filter" => .filter
  | "alterRow" => .alterRow
  | "sort" => .sort
  | "pivot" => .pivot
  | "unpivot" => .unpivot
  | "flatten" => .flatten
  | "rank" => .rank
  | "keyGenerate" => .surrogateKey
  | _ => .other

/-- The number that identifies a node within its graph. -/
abbrev NodeId := Nat

/-- A step of a data flow. -/
structure Node where
  /-- The place of the node in the order of declaration. -/
  id : NodeId
  name : String
  nodeType : String
  attributes : Bag := {}
  description : Option String := none
  /-- The nodes that this one reads from. -/
  parents : Array NodeId := #[]
  /-- The nodes that read from this one. -/
  children : Array NodeId := #[]
  span : Span := {}
deriving DecidableEq, Repr, Inhabited

namespace Node

/-- The kind of the node's type. -/
def kind (n : Node) : Kind :=
  .ofKeyword n.nodeType

/-- The value of an attribute. -/
def attribute? (n : Node) (key : String) : Option String :=
  n.attributes.get? key

/-- The condition of a filter. -/
def filterExpression? (n : Node) : Option String :=
  if n.kind = .filter then n.attributes.other? else none

end Node

/-- A connection between two nodes. -/
structure Edge where
  source : NodeId
  target : NodeId
  /-- The stream of the source that the target selects. -/
  stream : Option String := none
deriving DecidableEq, Repr, Inhabited

/-- A data flow. -/
structure Graph where
  nodes : Array Node := #[]
  edges : Array Edge := #[]
deriving DecidableEq, Repr, Inhabited

namespace Graph

/-- The graph without nodes. -/
def empty : Graph := {}

/-- The number of nodes. -/
def size (g : Graph) : Nat :=
  g.nodes.size

/-- The number of edges. -/
def edgeCount (g : Graph) : Nat :=
  g.edges.size

/-- Whether the graph has no nodes. -/
def isEmpty (g : Graph) : Bool :=
  g.nodes.isEmpty

/-- The graph with one more node, which has no connections yet and whose number is the former
number of nodes. -/
def addNode (g : Graph) (name nodeType : String) (attributes : Bag) (span : Span) : Graph :=
  { g with nodes := g.nodes.push { id := g.size, name, nodeType, attributes, span } }

/-- Whether `child` is known to read from `parent`. -/
def connected (g : Graph) (parent child : NodeId) : Bool :=
  match g.nodes[child]? with
  | some node => node.parents.contains parent
  | none => false

/-- Whether an edge may be drawn: both nodes are known and not yet connected in this direction. -/
def connectable (g : Graph) (parent child : NodeId) : Bool :=
  parent < g.size && child < g.size && !g.connected parent child

/-- The graph in which `child` reads from `parent`; an edge that may not be drawn changes
nothing. -/
def connect (g : Graph) (parent child : NodeId) (stream : Option String) : Graph :=
  if g.connectable parent child then
    { nodes := (g.nodes.modify child fun n => { n with parents := n.parents.push parent }).modify
        parent fun n => { n with children := n.children.push child }
      edges := g.edges.push ⟨parent, child, stream⟩ }
  else g

/-- The place of the first node with this name. -/
def indexOf? (g : Graph) (name : String) : Option Nat :=
  g.nodes.findIdx? (·.name == name)

/-- The graph in which the first node with this name has a description; a name that no node has
changes nothing. -/
def describe (g : Graph) (name description : String) : Graph :=
  match g.indexOf? name with
  | some i =>
    { g with nodes := g.nodes.modify i fun n => { n with description := some description } }
  | none => g

/-- The node at the place that a number names. -/
def node? (g : Graph) (id : NodeId) : Option Node :=
  g.nodes[id]?

/-- The first node with this name. -/
def findNode? (g : Graph) (name : String) : Option Node :=
  g.nodes.find? (·.name == name)

/-- The known ones of the nodes that a node reads from. -/
def parentsOf (g : Graph) (id : NodeId) : List Node :=
  match g.node? id with
  | some node => node.parents.toList.filterMap g.node?
  | none => []

/-- The known ones of the nodes that read from a node. -/
def childrenOf (g : Graph) (id : NodeId) : List Node :=
  match g.node? id with
  | some node => node.children.toList.filterMap g.node?
  | none => []

end Graph

end FlowDoc
