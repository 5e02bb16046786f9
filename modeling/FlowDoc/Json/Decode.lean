import FlowDoc.Json.Reader

/-!
# Decoding typed values

A decoder reads a text as a value of a type, and stops at the first thing that is wrong: a fault of
the text, or a value of another kind than the type asks for. A value of the wrong kind that is
neither an array nor an object is read to its end first, so that its own faults come before.

## Main definitions

* `DecodeError`: a fault of the text, or a mismatch with the type.
* `Decoder`: yields a value and the unread rest.
* `Decoder.string`, `Decoder.word`, `Decoder.nullable`, `Decoder.list`, `Decoder.members`: the
  decoders that others are made of.
* `Decoder.all`: decodes a whole text.
-/

namespace FlowDoc.Json

/-- Why a text is no value of a type. -/
inductive DecodeError where
  /-- The text is no JSON. -/
  | malformed (fault : Fault)
  /-- The text holds something else. -/
  | mismatch
deriving DecidableEq, Repr

/-- Reads a text as a value of a type. -/
abbrev Decoder (α : Type) := List Char → Except DecodeError (α × List Char)

namespace Decoder

variable {α σ : Type}

/-- What a reader yields, as a decoder. -/
def lift (outcome : Except Fault α) : Except DecodeError α :=
  outcome.mapError .malformed

/-- A value of the wrong kind. -/
def mismatched : Decoder α := fun cs =>
  match skipSpace cs with
  | '[' :: _ => .error .mismatch
  | '\x7b' :: _ => .error .mismatch
  | rest => do
    let _ ← lift (readValue .keep rest)
    .error .mismatch

/-- A string. -/
def string : Decoder String := fun cs =>
  match skipSpace cs with
  | '\"' :: rest => lift (readString .keep rest)
  | rest => mismatched rest

/-- A natural number of 64 bits. -/
def word : Decoder Nat := fun cs =>
  match skipSpace cs with
  | c :: rest =>
    if c.isDigit then do
      match ← lift (readNumber .keep (c :: rest)) with
      | (.natural n, rest) => return (n, rest)
      | (.written _, _) => .error .mismatch
    else mismatched (c :: rest)
  | [] => mismatched []

/-- A value, or nothing where `null` stands. -/
def nullable (value : Decoder α) : Decoder (Option α) := fun cs =>
  match skipSpace cs with
  | 'n' :: rest => do return (none, ← lift (readIdent ['u', 'l', 'l'] rest))
  | rest => do
    let (a, rest) ← value rest
    return (some a, rest)

/-- Passes over a value. -/
def skipped : Decoder Unit := fun cs => do
  let (_, rest) ← lift (readValue .skip cs)
  return ((), rest)

/-- The items of an array up to its closing bracket; `fuel` bounds their number. -/
def items (item : Decoder α) : (fuel : Nat) → (first : Bool) → Decoder (List α)
  | 0, _ => fun cs => .error (.malformed (.before .listEnds cs))
  | fuel + 1, first => fun cs => do
    match ← lift (readToItem first cs) with
    | (false, rest) => return ([], rest)
    | (true, rest) =>
      let (a, rest) ← item rest
      let (as, rest) ← items item fuel false rest
      return (a :: as, rest)

/-- An array. -/
def list (item : Decoder α) : Decoder (List α) := fun cs =>
  match skipSpace cs with
  | '[' :: rest => items item (rest.length + 1) true rest
  | rest => mismatched rest

/-- The members of an object up to its closing brace, each taken into the state by `member`;
`fuel` bounds their number. -/
def membersFrom (member : σ → String → Decoder σ) : (fuel : Nat) → (first : Bool) → σ → Decoder σ
  | 0, _, _ => fun cs => .error (.malformed (.before .objectEnds cs))
  | fuel + 1, first, s => fun cs => do
    match ← lift (readToKey first cs) with
    | (false, rest) => return (s, rest)
    | (true, rest) =>
      let (key, rest) ← lift (readString .keep rest)
      let (s, rest) ← member s key rest
      membersFrom member fuel false s rest

/-- The members of an object whose opening brace was read. -/
def members (start : σ) (member : σ → String → Decoder σ) : Decoder σ := fun cs =>
  membersFrom member (cs.length + 1) true start cs

/-- The value of a member, after its colon. -/
def valued (value : Decoder α) : Decoder α := fun cs => do
  value (← lift (readColon cs))

/-- The value of a member that may stand only once. -/
def once (earlier : Option α) (value : Decoder α) : Decoder (Option α) := fun cs =>
  match earlier with
  -- A repeated member is refused at its key.
  | some _ => .error .mismatch
  | none => do
    let (a, rest) ← valued value cs
    return (some a, rest)

/-- The item of an array that stands for the next field of a record; `none` where the array ends. -/
def field? (first : Bool) (value : Decoder α) : Decoder (Option α) := fun cs => do
  match ← lift (readToItem first cs) with
  | (false, _) => return (none, cs)
  | (true, rest) =>
    let (a, rest) ← value rest
    return (some a, rest)

/-- The item of an array that stands for a field that must be there. -/
def field (first : Bool) (value : Decoder α) : Decoder α := fun cs => do
  match ← field? first value cs with
  | (some a, rest) => return (a, rest)
  | (none, _) => .error .mismatch

/-- The end of an array whose items stand for the fields of a record. -/
def fieldsEnd : Decoder Unit := fun cs =>
  match skipSpace cs with
  | [] => .error (.malformed ⟨.listEnds, 0⟩)
  | ']' :: rest => .ok ((), rest)
  | rest => .error (.malformed (.upon .trailingCharacters rest))

/-- A record, written as an object or as the array of its fields. -/
def record (ofMembers ofFields : Decoder α) : Decoder α := fun cs =>
  match skipSpace cs with
  | '[' :: rest => do
    let (a, rest) ← ofFields rest
    let (_, rest) ← fieldsEnd rest
    return (a, rest)
  | '\x7b' :: rest => ofMembers rest
  | rest => mismatched rest

/-- Decodes a whole text. -/
def all (value : Decoder α) (text : String) : Except DecodeError α := do
  let (a, rest) ← value text.toList
  lift (readEnd rest)
  return a

end Decoder

end FlowDoc.Json
