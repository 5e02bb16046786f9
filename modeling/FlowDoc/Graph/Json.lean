import FlowDoc.Graph.Basic
import FlowDoc.Json.Decode
import FlowDoc.Json.Printer

/-!
# Graphs as JSON

A graph is written as an object with its fields in a fixed order; a description or a stream that is
not there is left out. The reader takes the fields in any order, passes over fields that it does
not know, and also takes an array of the fields. It does not check that the numbers in a graph name
nodes of it, and it keeps repeated keys of a bag.

## Main definitions

* `Bag.toJson`, `Graph.toJson`: what is written.
* `Bag.ofJson`, `Graph.ofJson`: what is read.
-/

namespace FlowDoc

/-! ## Writing -/

/-- A bag as an object of its entries, in order. -/
def Bag.toJson (bag : Bag) : Json :=
  .object (bag.entries.map fun (key, value) => (key, .string value))

/-- A member that is left out when there is no value. -/
def optionalMember (key : String) (value : Option String) : List (String × Json) :=
  match value with
  | some s => [(key, .string s)]
  | none => []

/-- A place as an object. -/
def Position.toJson (p : Position) : Json :=
  .object [("line", .natural p.line), ("col", .natural p.col)]

/-- A span as an object. -/
def Span.toJson (s : Span) : Json :=
  .object [("start", s.start.toJson), ("end", s.stop.toJson)]

/-- The numbers of nodes as an array. -/
def nodeIdsToJson (ids : Array NodeId) : Json :=
  .array (ids.toList.map .natural)

/-- A node as an object. -/
def Node.toJson (n : Node) : Json :=
  .object
    ([("id", .natural n.id), ("name", .string n.name), ("node_type", .string n.nodeType),
      ("attributes", n.attributes.toJson)] ++
      optionalMember "description" n.description ++
      [("parents", nodeIdsToJson n.parents), ("children", nodeIdsToJson n.children),
        ("span", n.span.toJson)])

/-- An edge as an object. -/
def Edge.toJson (e : Edge) : Json :=
  .object
    ([("from", .natural e.source), ("to", .natural e.target)] ++ optionalMember "stream" e.stream)

/-- A graph as an object. -/
def Graph.toJson (g : Graph) : Json :=
  .object
    [("nodes", .array (g.nodes.toList.map Node.toJson)),
     ("edges", .array (g.edges.toList.map Edge.toJson))]

/-! ## Reading -/

open Json (Decoder DecodeError)
open Json.Decoder

/-- Yields a value that is there, or a mismatch. -/
def present {α : Type} (value : Option α) : Except DecodeError α :=
  match value with
  | some a => .ok a
  | none => .error .mismatch

/-- Reads a bag: an object of strings. -/
def Bag.decoder : Decoder Bag := fun cs =>
  match Json.skipSpace cs with
  | '\x7b' :: rest => do
    let (entries, rest) ← members #[] (fun done key cs => do
      let (value, rest) ← valued string cs
      return (done.push (key, value), rest)) rest
    return (⟨entries.toList⟩, rest)
  | rest => mismatched rest

/-- The fields of a place that were read. -/
structure PositionFields where
  line : Option Nat := none
  col : Option Nat := none

/-- Reads a place. -/
def Position.decoder : Decoder Position :=
  record
    (fun cs => do
      let (fields, rest) ← members {} (fun (f : PositionFields) key cs => do
        match key with
        | "line" => let (v, rest) ← once f.line word cs; return ({ f with line := v }, rest)
        | "col" => let (v, rest) ← once f.col word cs; return ({ f with col := v }, rest)
        | _ => let (_, rest) ← valued skipped cs; return (f, rest)) cs
      return (⟨← present fields.line, ← present fields.col⟩, rest))
    (fun cs => do
      let (line, cs) ← field true word cs
      let (col, cs) ← field false word cs
      return (⟨line, col⟩, cs))

/-- The fields of a span that were read. -/
structure SpanFields where
  start : Option Position := none
  stop : Option Position := none

/-- Reads a span. -/
def Span.decoder : Decoder Span :=
  record
    (fun cs => do
      let (fields, rest) ← members {} (fun (f : SpanFields) key cs => do
        match key with
        | "start" =>
          let (v, rest) ← once f.start Position.decoder cs
          return ({ f with start := v }, rest)
        | "end" =>
          let (v, rest) ← once f.stop Position.decoder cs
          return ({ f with stop := v }, rest)
        | _ => let (_, rest) ← valued skipped cs; return (f, rest)) cs
      return (⟨← present fields.start, ← present fields.stop⟩, rest))
    (fun cs => do
      let (start, cs) ← field true Position.decoder cs
      let (stop, cs) ← field false Position.decoder cs
      return (⟨start, stop⟩, cs))

/-- Reads the numbers of nodes. -/
def nodeIdsDecoder : Decoder (Array NodeId) := fun cs => do
  let (ids, rest) ← list word cs
  return (ids.toArray, rest)

/-- The fields of a node that were read. -/
structure NodeFields where
  id : Option NodeId := none
  name : Option String := none
  nodeType : Option String := none
  attributes : Option Bag := none
  description : Option (Option String) := none
  parents : Option (Array NodeId) := none
  children : Option (Array NodeId) := none
  span : Option Span := none

namespace NodeFields

/-- Takes in the member with the given key. -/
def member (f : NodeFields) (key : String) : Decoder NodeFields := fun cs => do
  match key with
  | "id" => let (v, rest) ← once f.id word cs; return ({ f with id := v }, rest)
  | "name" => let (v, rest) ← once f.name string cs; return ({ f with name := v }, rest)
  | "node_type" =>
    let (v, rest) ← once f.nodeType string cs
    return ({ f with nodeType := v }, rest)
  | "attributes" =>
    let (v, rest) ← once f.attributes Bag.decoder cs
    return ({ f with attributes := v }, rest)
  | "description" =>
    let (v, rest) ← once f.description (nullable string) cs
    return ({ f with description := v }, rest)
  | "parents" =>
    let (v, rest) ← once f.parents nodeIdsDecoder cs
    return ({ f with parents := v }, rest)
  | "children" =>
    let (v, rest) ← once f.children nodeIdsDecoder cs
    return ({ f with children := v }, rest)
  | "span" => let (v, rest) ← once f.span Span.decoder cs; return ({ f with span := v }, rest)
  | _ => let (_, rest) ← valued skipped cs; return (f, rest)

/-- The node of these fields, of which only the description may be missing. -/
def node (f : NodeFields) : Except DecodeError Node := do
  return {
    id := ← present f.id
    name := ← present f.name
    nodeType := ← present f.nodeType
    attributes := ← present f.attributes
    description := f.description.join
    parents := ← present f.parents
    children := ← present f.children
    span := ← present f.span }

end NodeFields

/-- Reads a node. -/
def Node.decoder : Decoder Node :=
  record
    (fun cs => do
      let (fields, rest) ← members {} NodeFields.member cs
      return (← fields.node, rest))
    (fun cs => do
      let (id, cs) ← field true word cs
      let (name, cs) ← field false string cs
      let (nodeType, cs) ← field false string cs
      let (attributes, cs) ← field false Bag.decoder cs
      let (description, cs) ← field? false (nullable string) cs
      let (parents, cs) ← field false nodeIdsDecoder cs
      let (children, cs) ← field false nodeIdsDecoder cs
      let (span, cs) ← field false Span.decoder cs
      let description := description.join
      return ({ id, name, nodeType, attributes, description, parents, children, span }, cs))

/-- The fields of an edge that were read. -/
structure EdgeFields where
  source : Option NodeId := none
  target : Option NodeId := none
  stream : Option (Option String) := none

/-- Reads an edge. -/
def Edge.decoder : Decoder Edge :=
  record
    (fun cs => do
      let (fields, rest) ← members {} (fun (f : EdgeFields) key cs => do
        match key with
        | "from" => let (v, rest) ← once f.source word cs; return ({ f with source := v }, rest)
        | "to" => let (v, rest) ← once f.target word cs; return ({ f with target := v }, rest)
        | "stream" =>
          let (v, rest) ← once f.stream (nullable string) cs
          return ({ f with stream := v }, rest)
        | _ => let (_, rest) ← valued skipped cs; return (f, rest)) cs
      return (⟨← present fields.source, ← present fields.target, fields.stream.join⟩, rest))
    (fun cs => do
      let (source, cs) ← field true word cs
      let (target, cs) ← field false word cs
      let (stream, cs) ← field? false (nullable string) cs
      return (⟨source, target, stream.join⟩, cs))

/-- The fields of a graph that were read. -/
structure GraphFields where
  nodes : Option (List Node) := none
  edges : Option (List Edge) := none

/-- Reads a graph. -/
def Graph.decoder : Decoder Graph :=
  record
    (fun cs => do
      let (fields, rest) ← members {} (fun (f : GraphFields) key cs => do
        match key with
        | "nodes" =>
          let (v, rest) ← once f.nodes (list Node.decoder) cs
          return ({ f with nodes := v }, rest)
        | "edges" =>
          let (v, rest) ← once f.edges (list Edge.decoder) cs
          return ({ f with edges := v }, rest)
        | _ => let (_, rest) ← valued skipped cs; return (f, rest)) cs
      return (⟨(← present fields.nodes).toArray, (← present fields.edges).toArray⟩, rest))
    (fun cs => do
      let (nodes, cs) ← field true (list Node.decoder) cs
      let (edges, cs) ← field false (list Edge.decoder) cs
      return (⟨nodes.toArray, edges.toArray⟩, cs))

/-- Reads a bag from a whole text. -/
def Bag.ofJson (text : String) : Except DecodeError Bag :=
  all Bag.decoder text

/-- Reads a graph from a whole text. -/
def Graph.ofJson (text : String) : Except DecodeError Graph :=
  all Graph.decoder text

end FlowDoc
