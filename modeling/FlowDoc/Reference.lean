import FlowDoc.Text.Blank
import FlowDoc.Text.Cut

/-!
# References to nodes

A node is declared and referred to by its name. Either may carry a *stream selector* after an
at sign: `Split1@Insert` names the node `Split1` and reads its stream `Insert`.

## Main definitions

* `canonicalName`: the name without its selector.
* `streamSelector`: the selector, if there is one.
-/

namespace FlowDoc

/-- The node that a reference names: what stands before the first `@`, trimmed. -/
def canonicalName (reference : String) : String :=
  match Text.cut ['@'] reference.toList with
  | some (base, _) => String.ofList (Text.trim base)
  | none => Text.trimmed reference

/-- The stream that a reference selects: what stands after the first `@`, unless it is blank. -/
def streamSelector (reference : String) : Option String :=
  match Text.cut ['@'] reference.toList with
  | some (_, selector) =>
    match Text.trim selector with
    | [] => none
    | cs => some (String.ofList cs)
  | none => none

end FlowDoc
