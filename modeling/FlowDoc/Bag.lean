/-!
# Attribute bags

The attributes of a node, as pairs of a key and an opaque value in the order in which the keys
were first met. Values that came without a key share the key `other`.

## Main definitions

* `Bag`: the entries, in order.
* `Bag.insert`: a repeated key replaces its value in place; values of `other` accumulate.
* `Bag.toPayload`: the bag in the form in which a script writes it.
-/

namespace FlowDoc

/-- The key of the values that came without one. -/
def otherKey : String := "other"

/-- The entries of a node's payload, in order. -/
structure Bag where
  entries : List (String × String) := []
deriving DecidableEq, Repr, Inhabited

namespace Bag

/-- The bag without entries. -/
def empty : Bag := {}

/-- Entries with one more pair: the first entry with that key takes the value, and under `other`
the values are joined by a comma and a space. -/
def insertEntry (key value : String) : List (String × String) → List (String × String)
  | [] => [(key, value)]
  | (k, v) :: rest =>
    if k = key then
      (k, if key = otherKey then v ++ ", " ++ value else value) :: rest
    else
      (k, v) :: insertEntry key value rest

/-- The bag with one more pair. -/
def insert (bag : Bag) (key value : String) : Bag :=
  ⟨insertEntry key value bag.entries⟩

/-- The bag of the pairs, inserted one by one. -/
def ofList (pairs : List (String × String)) : Bag :=
  pairs.foldl (fun bag (key, value) => bag.insert key value) empty

/-- The value of the first entry with this key. -/
def get? (bag : Bag) (key : String) : Option String :=
  bag.entries.lookup key

/-- The values that came without a key. -/
def other? (bag : Bag) : Option String :=
  bag.get? otherKey

/-- The number of entries. -/
def size (bag : Bag) : Nat :=
  bag.entries.length

/-- Whether the bag has no entries. -/
def isEmpty (bag : Bag) : Bool :=
  bag.entries.isEmpty

/-- The bag as a payload: each entry as `key(value)`, joined by commas. -/
def toPayload (bag : Bag) : String :=
  ",".intercalate (bag.entries.map fun (key, value) => key ++ "(" ++ value ++ ")")

end Bag

end FlowDoc
