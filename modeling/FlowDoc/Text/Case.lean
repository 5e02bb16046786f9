import FlowDoc.Text.CaseTable

/-!
# Letter case

## Main definitions

* `lower`: a text in lower case.
* `capitalize`: a text with its first character in upper case.
-/

namespace FlowDoc.Text

/-- The character that a table maps `c` to. -/
def shift? (table : List CaseShift) (c : Char) : Option Char :=
  let n := c.toNat
  (table.find? fun s => s.first ≤ n && n ≤ s.last && (n - s.first) % s.stride == 0).map fun s =>
    Char.ofNat ((n : Int) + s.offset).toNat

/-- Whether a character lies in one of the ranges. -/
def inRanges (ranges : List (Nat × Nat)) (c : Char) : Bool :=
  ranges.any fun (first, last) => first ≤ c.toNat && c.toNat ≤ last

/-- Whether a character has case. -/
def isCased (c : Char) : Bool :=
  inRanges casedRanges c

/-- Whether a character is passed over when the case of a word is judged. -/
def isCaseIgnorable (c : Char) : Bool :=
  inRanges caseIgnorableRanges c

/-- Whether the first character that is not passed over has case. -/
def startsCased (cs : List Char) : Bool :=
  match cs.dropWhile isCaseIgnorable with
  | c :: _ => isCased c
  | [] => false

/-- The lower case of a character other than sigma. -/
def lowerChar (c : Char) : List Char :=
  if c.toNat < 0x80 then [c.toLower]
  else if c = '\u0130' then ['i', '\u0307']
  else [(shift? lowerShifts c).getD c]

/-- The upper case of a character. -/
def upperChar (c : Char) : List Char :=
  if c.toNat < 0x80 then [c.toUpper]
  else match upperSequences.lookup c.toNat with
    | some codes => codes.map Char.ofNat
    | none => [(shift? upperShifts c).getD c]

/-- A text in lower case, where `before` holds the characters before it, the nearest first. A
capital sigma has its final form where a letter with case comes before it and none comes after. -/
def lowerAfter (before : List Char) : List Char → List Char
  | [] => []
  | c :: cs =>
    let small :=
      if c = 'Σ' then [if startsCased before && !startsCased cs then 'ς' else 'σ']
      else lowerChar c
    small ++ lowerAfter (c :: before) cs

/-- A text in lower case. -/
def lower (s : String) : String :=
  String.ofList (lowerAfter [] s.toList)

/-- A text with its first character in upper case. -/
def capitalize (s : String) : String :=
  match s.toList with
  | [] => ""
  | c :: cs => String.ofList (upperChar c ++ cs)

end FlowDoc.Text
