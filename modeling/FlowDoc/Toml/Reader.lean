import FlowDoc.Text.Hex
import FlowDoc.Toml.Moment
import FlowDoc.Toml.Table

/-!
# Reading TOML

Settings are written in TOML: keys and values line by line, with headers that open tables. No
setting takes a number, a truth value or a list with items, so a document that holds one is refused
without a closer look.

## Main definitions

* `readKey`, `readText`, `readSetting`: the readers of keys, texts and values.
* `read?`: reads a whole document.
-/

namespace FlowDoc.Toml

/-! ## Blanks, comments and line ends -/

/-- Blanks within a line. -/
def isSpace (c : Char) : Bool :=
  c == ' ' || c == '\t'

/-- A text without its leading blanks. -/
def skipSpace (cs : List Char) : List Char :=
  cs.dropWhile isSpace

/-- The control characters that may stand nowhere but in line ends. -/
def isControl (c : Char) : Bool :=
  (c.toNat < 0x20 && c != '\t') || c.toNat == 0x7F

/-- What follows a line end. -/
def lineEnd? : List Char → Option (List Char)
  | '\n' :: cs => some cs
  | '\r' :: '\n' :: cs => some cs
  | _ => none

/-- What follows the rest of a line that holds blanks and a comment at most. -/
def skipLine? (cs : List Char) : Option (List Char) :=
  let rest := match skipSpace cs with
    | '#' :: cs => cs.dropWhile fun c => !isControl c
    | cs => cs
  match rest with
  | [] => some []
  | rest => lineEnd? rest

/-- What follows blank lines, comments and blanks; `fuel` bounds the number of lines. -/
def skipLines : (fuel : Nat) → List Char → List Char
  | 0, cs => cs
  | fuel + 1, cs =>
    match skipSpace cs with
    | [] => []
    | rest =>
      match skipLine? rest with
      | some below => skipLines fuel below
      | none => rest

/-! ## Texts -/

/-- The character that the first `size` hexadecimal digits number, when there is one. -/
def readCode? (size : Nat) (cs : List Char) : Option (Char × List Char) := do
  let n ← Text.hexNumber? (cs.take size)
  if size ≤ cs.length ∧ n.isValidChar then some (Char.ofNat n, cs.drop size) else none

/-- The character that an escape stands for; the backslash was read. -/
def readEscape? : List Char → Option (Char × List Char)
  | 'b' :: cs => some ('\x08', cs)
  | 't' :: cs => some ('\t', cs)
  | 'n' :: cs => some ('\n', cs)
  | 'f' :: cs => some ('\x0c', cs)
  | 'r' :: cs => some ('\r', cs)
  | '\"' :: cs => some ('\"', cs)
  | '\\' :: cs => some ('\\', cs)
  | 'u' :: cs => readCode? 4 cs
  | 'U' :: cs => readCode? 8 cs
  | _ => none

/-- A text without its leading blanks and line ends. -/
def skipFold : List Char → List Char
  | '\r' :: '\n' :: cs => skipFold cs
  | c :: cs => if isSpace c || c == '\n' then skipFold cs else c :: cs
  | [] => []

/-- What follows a backslash at the end of a line and the blank lines and blanks below it. -/
def foldedLine? (cs : List Char) : Option (List Char) :=
  (lineEnd? (skipSpace cs)).map skipFold

/-- The quote around texts without escapes. -/
def plainQuote : Char := '\x27'

/-- Reads a text on one line up to its closing quote; escapes count in double quotes only. -/
def readLineText? (quote : Char) : (fuel : Nat) → List Char → Option (List Char × List Char)
  | 0, _ => none
  | _ + 1, [] => none
  | fuel + 1, c :: cs =>
    if c = quote then some ([], cs)
    else if c = '\\' ∧ quote ≠ plainQuote then do
      let (escaped, rest) ← readEscape? cs
      let (text, rest) ← readLineText? quote fuel rest
      return (escaped :: text, rest)
    else if isControl c then none
    else do
      let (text, rest) ← readLineText? quote fuel cs
      return (c :: text, rest)

/-- Reads a text on many lines up to its three closing quotes, before which one or two more may
stand. -/
def readBlockText? (quote : Char) : (fuel : Nat) → List Char → Option (List Char × List Char)
  | 0, _ => none
  | _ + 1, [] => none
  | fuel + 1, c :: cs =>
    if c = quote then
      let quotes := (c :: cs).takeWhile (· == quote)
      if quotes.length < 3 then do
        let (text, rest) ← readBlockText? quote fuel cs
        return (c :: text, rest)
      else
        -- Three quotes close the text; one or two before them belong to it.
        let size := min quotes.length 5
        some (List.replicate (size - 3) quote, (c :: cs).drop size)
    else if c = '\\' ∧ quote ≠ plainQuote then
      match foldedLine? cs with
      | some below => readBlockText? quote fuel below
      | none => do
        let (escaped, rest) ← readEscape? cs
        let (text, rest) ← readBlockText? quote fuel rest
        return (escaped :: text, rest)
    else match lineEnd? (c :: cs) with
      | some below => do
        let (text, rest) ← readBlockText? quote fuel below
        return ('\n' :: text, rest)
      | none =>
        if isControl c then none
        else do
          let (text, rest) ← readBlockText? quote fuel cs
          return (c :: text, rest)

/-- Reads a text in any of its four forms. -/
def readText? : List Char → Option (String × List Char)
  | [] => none
  | q :: cs =>
    if q = '\"' ∨ q = plainQuote then do
      let (text, rest) ←
        if cs.take 2 = [q, q] then
          let body := cs.drop 2
          readBlockText? q (cs.length + 1) ((lineEnd? body).getD body)
        else
          readLineText? q (cs.length + 1) cs
      return (String.ofList text, rest)
    else none

/-! ## Keys -/

/-- The characters of keys that are not quoted. -/
def isBare (c : Char) : Bool :=
  c.isAlphanum || c == '_' || c == '-'

/-- Reads one part of a key. -/
def readPart? (cs : List Char) : Option (String × List Char) :=
  match cs with
  | [] => none
  | q :: rest =>
    if q = '\"' ∨ q = plainQuote then do
      let (text, rest) ← readLineText? q (rest.length + 1) rest
      return (String.ofList text, rest)
    else if isBare q then some (String.ofList (cs.takeWhile isBare), cs.dropWhile isBare)
    else none

/-- Reads the parts of a key between dots, with the blanks around them; `fuel` bounds their
number. -/
def readParts? : (fuel : Nat) → List Char → Option (List String × List Char)
  | 0, _ => none
  | fuel + 1, cs => do
    let (part, rest) ← readPart? (skipSpace cs)
    match skipSpace rest with
    | '.' :: rest => do
      let (parts, rest) ← readParts? fuel rest
      return (part :: parts, rest)
    | rest => return ([part], rest)

/-- Reads a key with the blanks around it: the keys that lead to its table, and its last part. -/
def readKey? (cs : List Char) : Option ((List String × String) × List Char) := do
  let (parts, rest) ← readParts? (cs.length + 1) cs
  return ((parts.dropLast, ← parts.getLast?), rest)

/-! ## Values -/

mutual

/-- Reads a value that a setting may take; `fuel` bounds the number of its parts. -/
def readSetting? : (fuel : Nat) → List Char → Option (Setting × List Char)
  | 0, _ => none
  | fuel + 1, cs =>
    match cs with
    | '[' :: rest =>
      match skipLines rest.length rest with
      | ']' :: rest => some (.emptyList, rest)
      | _ => none
    | '\x7b' :: rest =>
      match skipSpace rest with
      | '\x7d' :: rest => some (.emptyTable, rest)
      | rest => do
        let (entries, rest) ← readInline? fuel [] rest
        return (.ofEntries (settings entries), rest)
    | cs =>
      match Moment.read? cs with
      | some (moment, rest) => some (.moment moment.text, rest)
      | none => do
        let (text, rest) ← readText? cs
        return (.text text, rest)

/-- Reads the entries of a table on one line up to its closing brace. -/
def readInline? : (fuel : Nat) → Entries → List Char → Option (Entries × List Char)
  | 0, _, _ => none
  | fuel + 1, entries, cs => do
    let ((path, key), rest) ← readKey? cs
    match rest with
    | '=' :: rest => do
      let (setting, rest) ← readSetting? fuel (skipSpace rest)
      let entries ← define? key setting path entries
      match skipSpace rest with
      | ',' :: rest => readInline? fuel entries rest
      | '\x7d' :: rest => return (entries, rest)
      | _ => none
    | _ => none

end

/-! ## Documents -/

/-- Reads the lines of a document, where `header` names the table that keys are set in; `fuel`
bounds the number of lines. -/
def readLines? : (fuel : Nat) → (header : List String) → Entries → List Char → Option Entries
  | 0, _, _, _ => none
  | fuel + 1, header, entries, cs =>
    match skipLines cs.length cs with
    | [] => some entries
    | '[' :: rest => do
      let ((path, key), rest) ← readKey? rest
      match rest with
      | ']' :: rest =>
        let header := path ++ [key]
        readLines? fuel header (← openTable? header entries) (← skipLine? rest)
      | _ => none
    | rest => do
      let ((path, key), rest) ← readKey? rest
      match rest with
      | '=' :: rest => do
        let (setting, rest) ← readSetting? (rest.length + 1) (skipSpace rest)
        let entries ← within? (define? key setting path) header entries
        readLines? fuel header entries (← skipLine? rest)
      | _ => none

/-- The mark that may stand at the start of a document. -/
def byteOrderMark : Char := '\uFEFF'

/-- Reads a whole document. -/
def read? (text : String) : Option (List (String × Setting)) :=
  let cs := match text.toList with
    | c :: cs => if c = byteOrderMark then cs else c :: cs
    | [] => []
  (readLines? (cs.length + 1) [] [] cs).map settings

end FlowDoc.Toml
