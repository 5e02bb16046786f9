import FlowDoc.Script.Wiring

/-!
# Parsed scripts

A script is read record by record; the first record that cannot be read fails it. The declarations
then become a graph. A blank script is the graph without nodes.

## Main definitions

* `Parsed`: a graph and the warnings about its script.
* `Parsed.ofScript`: reads a script.
-/

namespace FlowDoc.Script

/-- A graph and the warnings about its script. -/
structure Parsed where
  graph : Graph
  warnings : List Warning
deriving DecidableEq, Repr

/-- Reads the records of a script to the end, each with its warnings. -/
def declarations (records : List Record) : Except ScriptError (List (Declaration × List Warning)) :=
  records.mapM Declaration.ofRecord

/-- Reads a script. -/
def Parsed.ofScript (script : String) : Except ScriptError Parsed := do
  let { records, leftover } := Records.ofScript script
  let declared ← declarations records
  let graph ← graphOf (declared.map (·.1))
  return { graph, warnings := leftover.toList ++ declared.flatMap (·.2) }

end FlowDoc.Script
