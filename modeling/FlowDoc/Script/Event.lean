import FlowDoc.Dataflow

/-!
# Events of reading

What happens while a script or a document is read, for those who want to follow it. Events come in
the order of the reading and end where it fails.

## Main definitions

* `Event`: something that happens.
* `Event.ofScript`, `Event.ofDocument`: what happens while a text is read.
-/

namespace FlowDoc

/-- Something that happens while a script or a document is read. -/
inductive Event where
  /-- A record was read. -/
  | record (name nodeType : String) (inputs attributes : Nat)
  /-- A node refers once more to a node that it reads from. -/
  | repeatedInput (node reference : String)
  /-- A script was read. -/
  | parsed (nodes edges warnings : Nat)
  /-- A description names no node. -/
  | unknownNode (name : String)
  /-- A document was read. -/
  | loaded (name : Option String) (nodes : Nat)
deriving DecidableEq, Repr

namespace Event

open Script

/-- The event of a record. -/
def ofDeclaration (d : Declaration) : Event :=
  .record d.name d.nodeType d.inputs.length d.attributes.size

/-- The events of the records up to the first that cannot be read. -/
def ofRecords : List Record → List Event
  | [] => []
  | r :: rs =>
    match Declaration.ofRecord r with
    | .ok (d, _) => ofDeclaration d :: ofRecords rs
    | .error _ => []

/-- The repeated inputs of a node up to its first reference to no node, and whether there is none;
`seen` holds the nodes that it refers to already. -/
def ofInputs (known : List String) (node : String) (seen : List String) :
    List String → List Event × Bool
  | [] => ([], true)
  | reference :: rest =>
    let name := canonicalName reference
    if name ∉ known then ([], false)
    else if name ∈ seen then
      let (events, complete) := ofInputs known node seen rest
      (.repeatedInput node reference :: events, complete)
    else ofInputs known node (name :: seen) rest

/-- The repeated inputs of all nodes up to the first reference to no node. -/
def ofWiring (known : List String) : List Declaration → List Event
  | [] => []
  | d :: ds =>
    let (events, complete) := ofInputs known d.name [] d.inputs
    if complete then events ++ ofWiring known ds else events

/-- What happens while a script is read. -/
def ofScript (script : String) : List Event :=
  let records := (Records.ofScript script).records
  ofRecords records ++
    match declarations records with
    | .error _ => []
    | .ok declared =>
      let ds := declared.map (·.1)
      let names := ds.map (·.name)
      -- References are resolved only when no name is declared twice.
      (if names.Nodup then ofWiring names ds else []) ++
        match Parsed.ofScript script with
        | .error _ => []
        | .ok p => [.parsed p.graph.size p.graph.edgeCount p.warnings.length]

/-- What happens while a document is read. -/
def ofDocument (text : String) : List Event :=
  match Document.read text with
  | .error _ => []
  | .ok document =>
    ofScript document.script ++
      match Parsed.ofScript document.script with
      | .error _ => []
      | .ok p =>
        let names := document.descriptions.map (·.1)
        (names.filter fun name => (p.graph.indexOf? (canonicalName name)).isNone).map unknownNode ++
          [.loaded document.name p.graph.size]

end Event

end FlowDoc
