import FlowDoc.Script.Event

/-!
# The log

## Main definitions

* `LogLevel`, `LogLine`: how grave a line is, and the line itself.
* `LogLine.render`: the text of a line.
* `Event.logLine`: the line of an event.
-/

namespace FlowDoc

/-- How grave a line of the log is. -/
inductive LogLevel where
  | error
  | warn
  | info
  | debug
  | trace
deriving DecidableEq, Repr

namespace LogLevel

/-- The place of a level, from the gravest on. -/
def rank : LogLevel → Nat
  | .error => 0
  | .warn => 1
  | .info => 2
  | .debug => 3
  | .trace => 4

/-- The word for a level, five characters wide. -/
def word : LogLevel → String
  | .error => "ERROR"
  | .warn => " WARN"
  | .info => " INFO"
  | .debug => "DEBUG"
  | .trace => "TRACE"

end LogLevel

/-- A line of the log. -/
structure LogLine where
  level : LogLevel
  /-- The part of the program that writes it. -/
  target : String
  message : String
deriving DecidableEq, Repr

namespace LogLine

/-- How a character of a message is written: those that steer a terminal are named instead. -/
def escapeChar (c : Char) : String :=
  if c = '\x07' then "\\x07"
  else if c = '\x08' then "\\x08"
  else if c = '\x0c' then "\\x0c"
  else if c = '\x1b' then "\\x1b"
  else if c = '\x7f' then "\\x7f"
  else if 0x80 ≤ c.toNat ∧ c.toNat ≤ 0x9f then
    "\\u\x7b" ++ String.ofList (Nat.toDigits 16 c.toNat) ++ "\x7d"
  else c.toString

/-- The text of a line. -/
def render (l : LogLine) : String :=
  l.level.word ++ " " ++ l.target ++ ": " ++ String.join (l.message.toList.map escapeChar) ++ "\n"

end LogLine

/-- The text of the lines that are at least as grave as `level`. -/
def renderLog (level : LogLevel) (log : List LogLine) : String :=
  String.join ((log.filter fun l => l.level.rank ≤ level.rank).map LogLine.render)

/-- The line of an event. -/
def Event.logLine : Event → LogLine
  | .record name nodeType inputs attributes =>
    ⟨.trace, "df_parser",
      "Record '" ++ name ++ "' of type '" ++ nodeType ++ "' with " ++ toString inputs ++
        " inputs and " ++ toString attributes ++ " attributes"⟩
  | .repeatedInput node reference =>
    ⟨.trace, "df_parser::graph_builder",
      "Repeated input '" ++ reference ++ "' on node '" ++ node ++ "' ignored"⟩
  | .parsed nodes edges warnings =>
    ⟨.debug, "df_parser",
      "Parsed data flow script: " ++ toString nodes ++ " nodes, " ++ toString edges ++
        " edges, " ++ toString warnings ++ " warnings"⟩
  | .unknownNode name =>
    ⟨.trace, "df_parser::envelope", "Description for unknown node '" ++ name ++ "' ignored"⟩
  | .loaded name nodes =>
    ⟨.debug, "df_parser::envelope",
      "Loaded data flow '" ++ name.getD "<unnamed>" ++ "' with " ++ toString nodes ++ " nodes"⟩

end FlowDoc
