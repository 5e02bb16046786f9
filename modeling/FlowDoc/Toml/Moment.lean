import FlowDoc.Text.Cut
import FlowDoc.Text.Decimal

/-!
# Moments

A moment is a date, a time of day, or both, and then perhaps with the distance from universal
time. It is written in several ways, and each moment has one standard text.

## Main definitions

* `Date`, `Time`, `Offset`: the parts of a moment, each with its reader and its text.
* `Moment`: a moment, with `Moment.read?` and `Moment.text`.
-/

namespace FlowDoc.Toml

/-- Reads a number of `size` digits that lies within bounds. -/
def readNumber? (size low high : Nat) (cs : List Char) : Option (Nat × List Char) :=
  let digits := cs.take size
  let n := Text.digitsValue digits
  if digits.length = size ∧ digits.all Char.isDigit ∧ low ≤ n ∧ n ≤ high then
    some (n, cs.drop size)
  else none

/-! ## Dates -/

/-- A day of a year. -/
structure Date where
  year : Nat
  month : Nat
  day : Nat
deriving DecidableEq, Repr

namespace Date

/-- Whether February has a day more than in other years. -/
def isLeapYear (year : Nat) : Bool :=
  year % 4 == 0 && (year % 100 != 0 || year % 400 == 0)

/-- The number of days of a month. -/
def daysOf (year : Nat) : (month : Nat) → Nat
  | 2 => if isLeapYear year then 29 else 28
  | 4 | 6 | 9 | 11 => 30
  | _ => 31

/-- Reads a date that the calendar has. -/
def read? (cs : List Char) : Option (Date × List Char) := do
  let (year, rest) ← readNumber? 4 0 9999 cs
  let (month, rest) ← readNumber? 2 1 12 (← Text.after? ['-'] rest)
  let (day, rest) ← readNumber? 2 1 (daysOf year month) (← Text.after? ['-'] rest)
  return (⟨year, month, day⟩, rest)

/-- The standard text of a date. -/
def text (date : Date) : String :=
  "-".intercalate [Text.padded 4 date.year, Text.padded 2 date.month, Text.padded 2 date.day]

end Date

/-! ## Times -/

/-- A time of day. -/
structure Time where
  hour : Nat
  minute : Nat
  second : Nat
  /-- The decimal places of the second, the last of which is not zero. -/
  places : List Char
deriving DecidableEq, Repr

namespace Time

/-- The number of decimal places that are kept. -/
def placeBound : Nat := 9

/-- Decimal places as they are kept: the first ones, without zeros at their end. -/
def kept (places : List Char) : List Char :=
  ((places.take placeBound).reverse.dropWhile (· == '0')).reverse

/-- Reads the decimal places of a second, of which there may be none. A point without a digit after
it is left unread. -/
def readPlaces (cs : List Char) : List Char × List Char :=
  match cs with
  | '.' :: rest =>
    if rest.head?.any Char.isDigit then
      (kept (rest.takeWhile Char.isDigit), rest.dropWhile Char.isDigit)
    else ([], cs)
  | _ => ([], cs)

/-- Reads a time; a minute may have a leap second. -/
def read? (cs : List Char) : Option (Time × List Char) := do
  let (hour, rest) ← readNumber? 2 0 23 cs
  let (minute, rest) ← readNumber? 2 0 59 (← Text.after? [':'] rest)
  let (second, rest) ← readNumber? 2 0 60 (← Text.after? [':'] rest)
  let (places, rest) := readPlaces rest
  return (⟨hour, minute, second, places⟩, rest)

/-- The standard text of a time. -/
def text (time : Time) : String :=
  ":".intercalate
      [Text.padded 2 time.hour, Text.padded 2 time.minute, Text.padded 2 time.second] ++
    if time.places = [] then "" else "." ++ String.ofList time.places

end Time

/-! ## Distances from universal time -/

/-- How far a clock is from universal time. -/
inductive Offset where
  /-- It shows universal time. -/
  | universal
  /-- It is ahead by minutes, or behind by the minutes below zero. -/
  | ahead (minutes : Int)
deriving DecidableEq, Repr

namespace Offset

/-- Reads hours and minutes as a number of minutes. -/
def readMinutes? (cs : List Char) : Option (Nat × List Char) := do
  let (hours, rest) ← readNumber? 2 0 23 cs
  let (minutes, rest) ← readNumber? 2 0 59 (← Text.after? [':'] rest)
  return (60 * hours + minutes, rest)

/-- Reads a distance from universal time. -/
def read? : List Char → Option (Offset × List Char)
  | 'Z' :: rest | 'z' :: rest => some (.universal, rest)
  | '+' :: rest => (readMinutes? rest).map fun (minutes, rest) => (.ahead minutes, rest)
  | '-' :: rest => (readMinutes? rest).map fun (minutes, rest) => (.ahead (-minutes), rest)
  | _ => none

/-- The standard text of a distance; one of no minutes counts as ahead. -/
def text : Offset → String
  | .universal => "Z"
  | .ahead minutes =>
    (if minutes < 0 then "-" else "+") ++ Text.padded 2 (minutes.natAbs / 60) ++ ":" ++
      Text.padded 2 (minutes.natAbs % 60)

end Offset

/-! ## Moments -/

/-- A date, a time of day, or both. -/
inductive Moment where
  | date (d : Date)
  | time (t : Time)
  | dated (d : Date) (t : Time) (offset : Option Offset)
deriving DecidableEq, Repr

namespace Moment

/-- Reads the time that follows a date, with its distance from universal time if it has one. -/
def readClock? : List Char → Option ((Time × Option Offset) × List Char)
  | [] => none
  | c :: rest =>
    if c = 'T' ∨ c = 't' ∨ c = ' ' then do
      let (t, rest) ← Time.read? rest
      match Offset.read? rest with
      | some (offset, rest) => return ((t, some offset), rest)
      | none => return ((t, none), rest)
    else none

/-- Reads a moment. What follows a date and is no time is left unread. -/
def read? (cs : List Char) : Option (Moment × List Char) :=
  match Date.read? cs with
  | some (d, rest) =>
    match readClock? rest with
    | some ((t, offset), rest) => some (.dated d t offset, rest)
    | none => some (.date d, rest)
  | none => (Time.read? cs).map fun (t, rest) => (.time t, rest)

/-- The standard text of a moment. -/
def text : Moment → String
  | .date d => d.text
  | .time t => t.text
  | .dated d t offset => d.text ++ "T" ++ t.text ++ (offset.map Offset.text).getD ""

end Moment

end FlowDoc.Toml
