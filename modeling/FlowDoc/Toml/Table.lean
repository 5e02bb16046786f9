import FlowDoc.Config.Setting

/-!
# Tables of a TOML document

A table comes into being by its own header, as part of the header of a table below it, or by a
dotted key. How it came into being decides what may still be added to it: a header may name a
table once, a dotted key only adds to tables that dotted keys made, and no key is set twice.

## Main definitions

* `Item`: a finished value or an open table.
* `define?`: sets a dotted key in a table.
* `openTable?`: opens a table by its header.
-/

namespace FlowDoc.Toml

/-- How a table came into being. -/
inductive Origin where
  | implied
  | dotted
  | header
deriving DecidableEq, Repr

/-- What a key stands for while a document is read. -/
inductive Item where
  | value (setting : Setting)
  | table (origin : Origin) (entries : List (String × Item))

/-- The entries of a table. -/
abbrev Entries := List (String × Item)

/-- The entries with a new item under a key that has one, or else at their end. -/
def replace (key : String) (item : Item) : Entries → Entries
  | [] => [(key, item)]
  | (k, i) :: rest => if k = key then (key, item) :: rest else (k, i) :: replace key item rest

/-- Sets the key `key` of the table that the keys `path` lead to. -/
def define? (key : String) (setting : Setting) : (path : List String) → Entries → Option Entries
  | [], entries =>
    match entries.lookup key with
    | none => some (replace key (.value setting) entries)
    | some _ => none
  | k :: path, entries =>
    match entries.lookup k with
    | none => do
      return replace k (.table .dotted (← define? key setting path [])) entries
    | some (.value _) => none
    | some (.table .header _) => none
    | some (.table origin below) =>
      -- Dotted keys set values in tables of dotted keys only, and may pass through implied ones.
      if path = [] ∧ origin ≠ .dotted then none
      else do return replace k (.table origin (← define? key setting path below)) entries

/-- Opens the table that the keys of a header name. -/
def openTable? : (path : List String) → Entries → Option Entries
  | [], entries => some entries
  | k :: path, entries =>
    match entries.lookup k with
    | none => do
      let below ← openTable? path []
      return replace k (.table (if path = [] then .header else .implied) below) entries
    | some (.value _) => none
    | some (.table origin below) =>
      if path = [] then
        if origin = .implied then some (replace k (.table .header below) entries) else none
      else do
        return replace k (.table origin (← openTable? path below)) entries

/-- Changes the entries of the table that the keys of its header name. -/
def within? (change : Entries → Option Entries) : (header : List String) → Entries → Option Entries
  | [], entries => change entries
  | k :: header, entries =>
    match entries.lookup k with
    | some (.table origin below) => do
      return replace k (.table origin (← within? change header below)) entries
    | _ => none

mutual

/-- A finished item. -/
def Item.setting : Item → Setting
  | .value setting => setting
  | .table _ entries => .ofEntries (settings entries)

/-- Finished entries. -/
def settings : List (String × Item) → List (String × Setting)
  | [] => []
  | (key, item) :: rest => (key, item.setting) :: settings rest

end

end FlowDoc.Toml
