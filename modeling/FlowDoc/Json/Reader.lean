import FlowDoc.Json.Fault
import FlowDoc.Json.Value
import FlowDoc.Text.Decimal
import FlowDoc.Text.Hex
import FlowDoc.Word

/-!
# Reading JSON

The readers take a text apart from its front. Each yields what it read with the unread rest, or
the first fault. A value is read to be kept or to be skipped: what is skipped may be nested to any
depth, its numbers may have any size, and its escapes may be halves of surrogate pairs.

## Main definitions

* `readString`, `readNumber`, `readValue`: the readers of strings, numbers and values.
* `Json.read`: reads a whole document.
-/

namespace FlowDoc.Json

/-- What a value is read for. -/
inductive Purpose where
  | keep
  | skip
deriving DecidableEq, Repr

/-- The blank characters between the parts of a document. -/
def isSpace (c : Char) : Bool :=
  c == ' ' || c == '\n' || c == '\t' || c == '\r'

/-- A text without its leading blanks. -/
def skipSpace (cs : List Char) : List Char :=
  cs.dropWhile isSpace

/-! ## Strings -/

/-- Reads the four digits of a hexadecimal escape. -/
def readHexUnit (cs : List Char) : Except Fault (Nat × List Char) :=
  -- With fewer than four bytes left the text ends here, whatever they are.
  if byteLength cs < 4 then .error ⟨.stringEnds, 0⟩
  else match Text.hexNumber? (cs.take 4) with
    | some n => .ok (n, cs.drop 4)
    | none => .error ⟨.badEscape, byteLength cs - 4⟩

/-- Whether a number is the first half of a surrogate pair. -/
def isHighSurrogate (n : Nat) : Bool :=
  0xD800 ≤ n && n ≤ 0xDBFF

/-- Whether a number is the second half of a surrogate pair. -/
def isLowSurrogate (n : Nat) : Bool :=
  0xDC00 ≤ n && n ≤ 0xDFFF

/-- Reads the second half of a surrogate pair whose first half is `high`. -/
def readLowSurrogate (high : Nat) : List Char → Except Fault (Char × List Char)
  | [] => .error ⟨.stringEnds, 0⟩
  | '\\' :: [] => .error ⟨.stringEnds, 0⟩
  | '\\' :: 'u' :: cs => do
    let (low, rest) ← readHexUnit cs
    if isLowSurrogate low then
      return (Char.ofNat ((high - 0xD800) * 0x400 + (low - 0xDC00) + 0x10000), rest)
    else
      .error (.before .loneSurrogate rest)
  | '\\' :: cs => .error (.upon .pairBroken cs)
  | cs => .error (.upon .pairBroken cs)

/-- Reads what follows the backslash of an escape. -/
def readEscape (purpose : Purpose) : List Char → Except Fault (Char × List Char)
  | [] => .error ⟨.stringEnds, 0⟩
  | '\"' :: cs => .ok ('\"', cs)
  | '\\' :: cs => .ok ('\\', cs)
  | '/' :: cs => .ok ('/', cs)
  | 'b' :: cs => .ok ('\x08', cs)
  | 'f' :: cs => .ok ('\x0c', cs)
  | 'n' :: cs => .ok ('\n', cs)
  | 'r' :: cs => .ok ('\r', cs)
  | 't' :: cs => .ok ('\t', cs)
  | 'u' :: cs => do
    let (n, rest) ← readHexUnit cs
    match purpose with
    | .skip => return ('\uFFFD', rest)
    | .keep =>
      if isLowSurrogate n then .error (.before .loneSurrogate rest)
      else if isHighSurrogate n then readLowSurrogate n rest
      else return (Char.ofNat n, rest)
  | cs => .error (.upon .badEscape cs)

/-- Reads the characters of a string up to its closing quote; `fuel` bounds their number. -/
def readChars (purpose : Purpose) : (fuel : Nat) → List Char → Except Fault (List Char × List Char)
  | 0, cs => .error (.before .stringEnds cs)
  | _ + 1, [] => .error ⟨.stringEnds, 0⟩
  | _ + 1, '\"' :: cs => .ok ([], cs)
  | fuel + 1, '\\' :: cs => do
    let (c, rest) ← readEscape purpose cs
    let (text, rest) ← readChars purpose fuel rest
    return (c :: text, rest)
  | fuel + 1, c :: cs =>
    if c.toNat < 0x20 then .error (.upon .controlCharacter (c :: cs))
    else do
      let (text, rest) ← readChars purpose fuel cs
      return (c :: text, rest)

/-- Reads a string whose opening quote was read. -/
def readString (purpose : Purpose) (cs : List Char) : Except Fault (String × List Char) := do
  let (text, rest) ← readChars purpose (cs.length + 1) cs
  return (String.ofList text, rest)

/-! ## Numbers -/

/-- A magnitude as a coefficient of 64 bits times a power of ten. -/
structure Magnitude where
  coefficient : Nat := 0
  exponent : Int := 0

namespace Magnitude

/-- Adds the digits before the point. From the first one that does not fit the coefficient on, each
counts in the exponent. -/
def addWhole (m : Magnitude) : List Char → Magnitude
  | [] => m
  | d :: ds =>
    let next := 10 * m.coefficient + Text.digitValue d
    if next < wordBound then addWhole { m with coefficient := next } ds
    else { m with exponent := m.exponent + (d :: ds).length }

/-- Adds the digits after the point. From the first one that does not fit the coefficient on, they
are dropped. -/
def addFraction (m : Magnitude) : List Char → Magnitude
  | [] => m
  | d :: ds =>
    let next := 10 * m.coefficient + Text.digitValue d
    if next < wordBound then addFraction ⟨next, m.exponent - 1⟩ ds else m

/-- The double nearest to a natural number, the one with an even coefficient where two are equally
near. A double keeps 53 binary digits. -/
def nearestDouble (n : Nat) : Nat :=
  let unit := Nat.pow 2 (n.log2 - 52)
  let kept := n / unit
  let dropped := n % unit
  if unit < 2 * dropped ∨ unit = 2 * dropped ∧ kept % 2 = 1 then (kept + 1) * unit
  else kept * unit

/-- The least number that is nearer to 2 ^ 1024 than to the greatest double below it, or equally
near. -/
def doubleOverflow : Nat := Nat.pow 2 1024 - Nat.pow 2 970

/-- The largest power of ten that a double holds. -/
def greatestPower : Nat := 308

/-- Whether a double cannot hold the magnitude: the product of the nearest double to its coefficient
and the nearest one to its power of ten is out of range. -/
def tooLarge (m : Magnitude) : Bool :=
  if m.exponent < 0 then false
  else if m.exponent ≤ greatestPower then
    doubleOverflow ≤ nearestDouble m.coefficient * nearestDouble (Nat.pow 10 m.exponent.toNat)
  else m.coefficient != 0

end Magnitude

/-- The greatest exponent that is read digit by digit. -/
def exponentBound : Nat := 0x7FFFFFFF

/-- Reads the digits of an exponent after its first one. A positive exponent that is out of bounds
is a fault at the digit that makes it so, unless the coefficient is zero; any other number with an
exponent out of bounds is zero. -/
def readExponentDigits (purpose : Purpose) (m : Magnitude) (negative : Bool) :
    (exponent : Nat) → List Char → Except Fault (Magnitude × List Char)
  | exponent, [] =>
    .ok (⟨m.coefficient, if negative then m.exponent - exponent else m.exponent + exponent⟩, [])
  | exponent, c :: cs =>
    if c.isDigit then
      let next := 10 * exponent + Text.digitValue c
      if next ≤ exponentBound then readExponentDigits purpose m negative next cs
      else if purpose = .keep ∧ m.coefficient ≠ 0 ∧ !negative then
        .error (.before .numberTooLarge cs)
      else .ok (⟨0, 0⟩, cs.dropWhile Char.isDigit)
    else
      .ok
        (⟨m.coefficient, if negative then m.exponent - exponent else m.exponent + exponent⟩,
          c :: cs)

/-- The fault of a number that ends before a digit it needs. -/
def numberEnds : Purpose → Fault
  | .keep => ⟨.valueEnds, 0⟩
  | .skip => ⟨.badNumber, 0⟩

/-- Reads an exponent, when one stands here. -/
def readExponent (purpose : Purpose) (m : Magnitude) :
    List Char → Except Fault (Magnitude × List Char)
  | [] => .ok (m, [])
  | c :: cs =>
    if c = 'e' ∨ c = 'E' then
      let (negative, digits) := match cs with
        | '+' :: cs => (false, cs)
        | '-' :: cs => (true, cs)
        | cs => (false, cs)
      match digits with
      | [] => .error (numberEnds purpose)
      | d :: ds =>
        if d.isDigit then readExponentDigits purpose m negative (Text.digitValue d) ds
        else .error (.upon .badNumber (d :: ds))
    else .ok (m, c :: cs)

/-- Reads a fraction, when one stands here. -/
def readFraction (purpose : Purpose) (m : Magnitude) :
    List Char → Except Fault (Magnitude × List Char)
  | '.' :: cs =>
    let digits := cs.takeWhile Char.isDigit
    let rest := cs.dropWhile Char.isDigit
    match digits, rest with
    | [], [] => .error (numberEnds purpose)
    | [], _ :: _ => .error (.upon .badNumber rest)
    | _ :: _, _ => .ok (m.addFraction digits, rest)
  | cs => .ok (m, cs)

/-- Reads the digits of a number before its point, of which there is at least one, and more than
one only when the first is not zero. -/
def readWhole (purpose : Purpose) : List Char → Except Fault (List Char × List Char)
  | [] => .error (numberEnds purpose)
  | '0' :: c :: cs =>
    if c.isDigit then .error (.upon .badNumber (c :: cs)) else .ok (['0'], c :: cs)
  | c :: cs =>
    if c.isDigit then .ok ((c :: cs).takeWhile Char.isDigit, (c :: cs).dropWhile Char.isDigit)
    else .error (.upon .badNumber (c :: cs))

/-- Reads a number, which starts with a sign or a digit. -/
def readNumber (purpose : Purpose) (cs : List Char) : Except Fault (Number × List Char) := do
  let (negative, unsigned) := match cs with
    | '-' :: rest => (true, rest)
    | _ => (false, cs)
  let (whole, afterWhole) ← readWhole purpose unsigned
  let m := Magnitude.addWhole {} whole
  let (m, afterFraction) ← readFraction purpose m afterWhole
  let (m, rest) ← readExponent purpose m afterFraction
  if purpose = .keep ∧ m.tooLarge then .error (.before .numberTooLarge rest)
  else
    let value := Text.digitsValue whole
    -- Digits alone are a natural number, unless they are too many for a word.
    if rest.length = afterWhole.length ∧ !negative ∧ value < wordBound then
      return (.natural value, rest)
    else
      return (.written (String.ofList (cs.take (cs.length - rest.length))), rest)

/-! ## Values -/

/-- Reads the letters of a word that must stand here. -/
def readIdent : (letters : List Char) → List Char → Except Fault (List Char)
  | [], cs => .ok cs
  | _ :: _, [] => .error ⟨.valueEnds, 0⟩
  | l :: ls, c :: cs => if l = c then readIdent ls cs else .error (.upon .noIdent (c :: cs))

/-- The number of arrays and objects that may be open around a value that is kept. -/
def depthBound : Nat := 127

/-- Reads up to the key of the next member of an object, or to its closing brace. -/
def readToKey (first : Bool) (cs : List Char) : Except Fault (Bool × List Char) :=
  match skipSpace cs with
  | [] => .error ⟨.objectEnds, 0⟩
  | c :: rest =>
    if c = '\x7d' then .ok (false, rest)
    else if first then
      if c = '\"' then .ok (true, rest) else .error (.upon .keyNotString (c :: rest))
    else if c = ',' then
      match skipSpace rest with
      | [] => .error ⟨.valueEnds, 0⟩
      | d :: rest =>
        if d = '\"' then .ok (true, rest)
        else if d = '\x7d' then .error (.upon .trailingComma (d :: rest))
        else .error (.upon .keyNotString (d :: rest))
    else .error (.upon .noObjectComma (c :: rest))

/-- Reads up to the next item of an array, or to its closing bracket. -/
def readToItem (first : Bool) (cs : List Char) : Except Fault (Bool × List Char) :=
  match skipSpace cs with
  | [] => .error ⟨.listEnds, 0⟩
  | c :: rest =>
    if c = ']' then .ok (false, rest)
    else if first then .ok (true, c :: rest)
    else if c = ',' then
      match skipSpace rest with
      | [] => .error ⟨.valueEnds, 0⟩
      | d :: rest =>
        if d = ']' then .error (.upon .trailingComma (d :: rest)) else .ok (true, d :: rest)
    else .error (.upon .noListComma (c :: rest))

/-- Reads the colon between a key and its value. -/
def readColon (cs : List Char) : Except Fault (List Char) :=
  match skipSpace cs with
  | [] => .error ⟨.objectEnds, 0⟩
  | ':' :: rest => .ok rest
  | rest => .error (.upon .noColon rest)

mutual

/-- Reads a value; `depth` counts the arrays and objects around it, and `fuel` bounds the number of
its parts. -/
def readValueWith (purpose : Purpose) : (fuel depth : Nat) → List Char →
    Except Fault (Json × List Char)
  | 0, _, cs => .error (.before .noValue cs)
  | fuel + 1, depth, cs =>
    match skipSpace cs with
    | [] => .error ⟨.valueEnds, 0⟩
    | 'n' :: rest => do return (.null, ← readIdent ['u', 'l', 'l'] rest)
    | 't' :: rest => do return (.bool true, ← readIdent ['r', 'u', 'e'] rest)
    | 'f' :: rest => do return (.bool false, ← readIdent ['a', 'l', 's', 'e'] rest)
    | '\"' :: rest => do
      let (s, rest) ← readString purpose rest
      return (.string s, rest)
    | '[' :: rest =>
      if purpose = .keep ∧ depthBound ≤ depth then .error (.upon .tooDeep ('[' :: rest))
      else do
        let (items, rest) ← readItemsWith purpose fuel (depth + 1) true rest
        return (.array items, rest)
    | '\x7b' :: rest =>
      if purpose = .keep ∧ depthBound ≤ depth then .error (.upon .tooDeep ('\x7b' :: rest))
      else do
        let (members, rest) ← readMembersWith purpose fuel (depth + 1) true rest
        return (.ofMembers members, rest)
    | c :: rest =>
      if c = '-' ∨ c.isDigit then do
        let (n, rest) ← readNumber purpose (c :: rest)
        return (.number n, rest)
      else .error (.upon .noValue (c :: rest))

/-- Reads the items of an array up to its closing bracket. -/
def readItemsWith (purpose : Purpose) : (fuel depth : Nat) → (first : Bool) → List Char →
    Except Fault (List Json × List Char)
  | 0, _, _, cs => .error (.before .listEnds cs)
  | fuel + 1, depth, first, cs => do
    match ← readToItem first cs with
    | (false, rest) => return ([], rest)
    | (true, rest) =>
      let (item, rest) ← readValueWith purpose fuel depth rest
      let (items, rest) ← readItemsWith purpose fuel depth false rest
      return (item :: items, rest)

/-- Reads the members of an object up to its closing brace. -/
def readMembersWith (purpose : Purpose) : (fuel depth : Nat) → (first : Bool) → List Char →
    Except Fault (List (String × Json) × List Char)
  | 0, _, _, cs => .error (.before .objectEnds cs)
  | fuel + 1, depth, first, cs => do
    match ← readToKey first cs with
    | (false, rest) => return ([], rest)
    | (true, rest) =>
      let (key, rest) ← readString purpose rest
      let rest ← readColon rest
      let (value, rest) ← readValueWith purpose fuel depth rest
      let (members, rest) ← readMembersWith purpose fuel depth false rest
      return ((key, value) :: members, rest)

end

/-- Reads a value. -/
def readValue (purpose : Purpose) (cs : List Char) : Except Fault (Json × List Char) :=
  readValueWith purpose (2 * cs.length + 2) 0 cs

/-- Checks that nothing but blanks is left of a document. -/
def readEnd (cs : List Char) : Except Fault Unit :=
  match skipSpace cs with
  | [] => .ok ()
  | rest => .error (.upon .trailingCharacters rest)

/-- Reads a whole document from its characters. -/
def readDocument (cs : List Char) : Except Fault Json := do
  let (json, rest) ← readValue .keep cs
  readEnd rest
  return json

/-- Reads a whole document. -/
def read (text : String) : Except Misreading Json :=
  match readDocument text.toList with
  | .ok json => .ok json
  | .error fault => .error (.ofFault text.toList fault)

end FlowDoc.Json
