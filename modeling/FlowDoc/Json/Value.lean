import FlowDoc.Text.Ordered

/-!
# Values of JSON documents

## Main definitions

* `Json`: a value; the members of an object are kept in the order in which they are written.
* `Json.ofMembers`: the object that a document holds, with its keys in order and each key once.
* `Json.field?`: looks up a member by its key, whatever the case of its letters.
-/

namespace FlowDoc

/-- A number of a document: a natural number of 64 bits, or the text of any other number. -/
inductive Number where
  | natural (n : Nat)
  | written (text : String)
deriving DecidableEq, Repr, Inhabited

/-- A value of a document. -/
inductive Json where
  | null
  | bool (b : Bool)
  | number (n : Number)
  | string (s : String)
  | array (items : List Json)
  | object (members : List (String × Json))
deriving Repr, Inhabited

namespace Json

/-- A natural number as a value. -/
def natural (n : Nat) : Json :=
  .number (.natural n)

/-- The object of these members: its keys are in order, and of a repeated key the last value
holds. -/
def ofMembers (members : List (String × Json)) : Json :=
  .object (Text.byKey members)

/-- The text of a string value. -/
def string? : Json → Option String
  | .string s => some s
  | _ => none

/-- The items of an array value. -/
def array? : Json → Option (List Json)
  | .array items => some items
  | _ => none

/-- The members of an object value. -/
def members : Json → List (String × Json)
  | .object members => members
  | _ => []

/-- The value of the first member whose key is `key` up to the case of its Latin letters. -/
def field? (json : Json) (key : String) : Option Json :=
  (json.members.find? fun (k, _) => k.toLower == key.toLower).map (·.2)

/-- The text of such a member, when it is a string. -/
def stringField? (json : Json) (key : String) : Option String :=
  (json.field? key).bind string?

end Json

end FlowDoc
