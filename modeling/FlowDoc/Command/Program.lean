import FlowDoc.Batch
import FlowDoc.Command.Arguments
import FlowDoc.Evidence
import FlowDoc.Toml.Reader

/-!
# The program

What each command does with the files that it works on, and what it writes to its two streams.

## Main definitions

* `Verdict`: what a validation finds.
* `Program.perform`: what a command does.
* `Program.run`: what the program does with the words that it is called with.
-/

namespace FlowDoc

/-! ## Validation -/

/-- What a validation says about a fault. -/
structure Complaint where
  code : String
  message : String
  line : Nat
  node : Option String := none
deriving DecidableEq, Repr

/-- What a validation finds. -/
structure Verdict where
  valid : Bool
  name : Option String := none
  nodeCount : Nat := 0
  edgeCount : Nat := 0
  warnings : List Complaint := []
  errors : List Complaint := []
deriving DecidableEq, Repr

namespace Verdict

/-- The complaint that a warning amounts to. -/
def complaintOfWarning (w : Warning) : Complaint :=
  { code := w.finding.code, message := w.finding.message, line := w.span.start.line }

/-- The complaint that an error amounts to. -/
def complaintOfError : LoadError → Complaint
  | .json fault =>
    { code := "dataflow/error/invalid-json", message := fault.message, line := fault.line }
  | .script e =>
    { code := e.code, message := e.message, line := e.span.stop.line, node := some e.nodeName }

/-- What is found about a text; a strict validation takes no warnings. -/
def ofLoad (strict : Bool) : Except LoadError Dataflow → Verdict
  | .ok d =>
    { valid := !strict || d.warnings.isEmpty
      name := d.name
      nodeCount := d.graph.size
      edgeCount := d.graph.edgeCount
      warnings := d.warnings.map complaintOfWarning }
  | .error e => { valid := false, errors := [complaintOfError e] }

/-- A text, or nothing. -/
def nullable : Option String → Json
  | some s => .string s
  | none => .null

/-- The verdict as an object. -/
def toJson (v : Verdict) : Json :=
  .object
    [("valid", .bool v.valid), ("name", nullable v.name), ("node_count", .natural v.nodeCount),
     ("edge_count", .natural v.edgeCount),
     ("warnings", .array (v.warnings.map fun c =>
        .object
          [("code", .string c.code), ("message", .string c.message), ("line", .natural c.line)])),
     ("errors", .array (v.errors.map fun c =>
        .object
          [("code", .string c.code), ("message", .string c.message), ("line", .natural c.line),
           ("node", nullable c.node)]))]

/-- The first line of a verdict. -/
def headline (v : Verdict) : String :=
  match v.valid, v.name with
  | true, some name => "✓ Valid data flow '" ++ name ++ "'"
  | true, none => "✓ Valid data flow"
  | false, _ => "✗ Invalid data flow"

/-- The line of a complaint. -/
def complaintLine (c : Complaint) : String :=
  "  [" ++ c.code ++ "] " ++ c.message ++ " (line " ++ toString c.line ++ ")"

/-- Complaints under a title, after an empty line. -/
def complaintLines (title : String) : List Complaint → List String
  | [] => []
  | complaints => ["", title] ++ complaints.map complaintLine

/-- The verdict in words. -/
def toText (v : Verdict) : String :=
  Text.unlines
    ([v.headline, "  Nodes: " ++ toString v.nodeCount, "  Edges: " ++ toString v.edgeCount] ++
      complaintLines "Errors:" v.errors ++ complaintLines "Warnings:" v.warnings)

end Verdict

/-! ## Commands -/

/-- What a command leaves behind. -/
structure Ending where
  log : List LogLine := []
  output : String := ""
  /-- What is told on the second stream besides the log. -/
  notes : String := ""
  failure : Option Failure := none
  /-- Whether what was checked is right. -/
  valid : Bool := true

namespace Program

variable {m : Type → Type} [Monad m]

/-- A line of the log of the program. -/
def logLine (level : LogLevel) (message : String) : LogLine :=
  ⟨level, "df_cli", message⟩

/-- The text that an input stands for: what the program is fed, the text of a file, or the input
itself where there is no such file. -/
def loadInput (files : FileAccess m) (input : String) : m (Except Failure String) := do
  if input = "-" then
    match ← files.input with
    | .ok text => return .ok text
    | .error e => return .error (.ofFile "Failed to read from stdin" e)
  else if ← files.pathExists input then
    match ← files.read input with
    | .ok text => return .ok text
    | .error e => return .error (.ofFile ("Failed to read file: " ++ input) e)
  else return .ok input

/-- The start of what a reader of TOML says about a text that is no configuration. -/
def tomlComplaint : String := "TOML parse error"

/-- The configuration in a file. -/
def loadConfig (files : FileAccess m) : Option String → m (Except Failure Config)
  | none => return .ok {}
  | some path => do
    match ← files.read path with
    | .error e => return .error (.ofFile ("Failed to read config: " ++ path) e)
    | .ok text =>
      match (Toml.read? text).bind Config.ofSettings? with
      | some config => return .ok config
      | none =>
        let failure : Failure :=
          ⟨"invalid render configuration: " ++ tomlComplaint, [tomlComplaint]⟩
        return .error (failure.within ("Invalid config: " ++ path))

/-- Reads a text as a document or as a bare script. -/
def load (script : Bool) (text : String) : Except LoadError Dataflow :=
  if script then Dataflow.ofScript text else Dataflow.ofDocument text

/-- The lines of the log about the reading of a text. -/
def loadLog (script : Bool) (text : String) : List LogLine :=
  (if script then Event.ofScript text else Event.ofDocument text).map Event.logLine

/-- The lines of the log about the warnings of a data flow. -/
def warningLog (d : Dataflow) : List LogLine :=
  d.warnings.map fun w =>
    logLine .warn
      ("Parse warning (line " ++ toString w.span.start.line ++ "): " ++ w.finding.message)

/-- The end of a command that could not do its work. -/
def failed (failure : Failure) (log : List LogLine) : Ending :=
  { log, failure := some failure }

/-- Prints a graph, or a summary of it. -/
def parse (files : FileAccess m) (input : String) (script full pretty : Bool) : m Ending := do
  match ← loadInput files input with
  | .error failure => return failed failure []
  | .ok text =>
    let log := loadLog script text
    match load script text with
    | .error e => return failed (.ofLoad e) log
    | .ok d =>
      let json := if full then d.toJson else evidence ⟨d.graph, d.warnings⟩
      let output := (if pretty then json.pretty else json.compact) ++ "\n"
      return { log := log ++ warningLog d, output }

/-- The output of a data flow in a given kind. -/
def renderOutput (files : FileAccess m) (d : Dataflow) (config : Config) :
    RenderFormat → m (Except RenderError String)
  | .document format => renderDocument files d.graph config format
  | .json => return .ok (d.toJson.pretty ++ "\n")

/-- Writes an output to a file, or prints it. -/
def writeOutput (files : FileAccess m) (output : Option String) (content : String)
    (log : List LogLine) : m Ending :=
  match output with
  | none => return { log, output := content }
  | some path => do
    match ← files.write path content with
    | .ok () => return { log := log ++ [logLine .info ("Wrote output to: " ++ path)] }
    | .error e => return failed (.ofFile ("Failed to write to: " ++ path) e) log

/-- Documents one data flow. -/
def render (files : FileAccess m) (input : String) (format : RenderFormat)
    (output config : Option String) (script : Bool) : m Ending := do
  match ← loadConfig files config with
  | .error failure => return failed failure []
  | .ok config =>
    match ← loadInput files input with
    | .error failure => return failed failure []
    | .ok text =>
      let log := loadLog script text
      match load script text with
      | .error e => return failed (.ofLoad e) log
      | .ok d =>
        let log := log ++ warningLog d
        match ← renderOutput files d config format with
        | .error e => return failed (.ofRender e) log
        | .ok content => writeOutput files output content log

/-- Tells whether a text is a data flow. -/
def validate (files : FileAccess m) (input : String) (json strict script : Bool) : m Ending := do
  match ← loadInput files input with
  | .error failure => return failed failure []
  | .ok text =>
    let verdict := Verdict.ofLoad strict (load script text)
    return {
      log := loadLog script text
      output := if json then verdict.toJson.pretty ++ "\n" else verdict.toText
      valid := verdict.valid }

/-- The lines about the inputs of a batch that were left out. -/
def skippedNotes (failures : List Batch.Skipped) : String :=
  Text.unlines (failures.map fun f => "✗ " ++ f.input ++ ": " ++ f.error)

/-- Documents a folder. -/
def batch (files : FileAccess m) (folder output : String) (format : Format)
    (config : Option String) (failFast : Bool) : m Ending := do
  match ← loadConfig files config with
  | .error failure => return failed failure []
  | .ok config =>
    match ← Batch.run files folder output config { format, failFast } with
    | (.error failure, log) => return failed failure log
    | (.ok report, log) =>
      if report.failures.isEmpty then return { log }
      else
        let skipped := report.failures.length
        return {
          log
          notes := skippedNotes report.failures
          failure := some
            ⟨toString skipped ++ " of " ++ toString (skipped + report.written.length) ++
              " data flow files failed", []⟩ }

/-- What a command does. -/
def perform (files : FileAccess m) : Command → m Ending
  | .parse input script full pretty => parse files input script full pretty
  | .render input format output config script => render files input format output config script
  | .validate input json strict script => validate files input json strict script
  | .batch folder output format config failFast => batch files folder output format config failFast

/-! ## The program as a whole -/

/-- What the program leaves on its two streams, and the number that it ends with. -/
structure Outcome where
  exit : Nat
  output : String := ""
  errors : String := ""
deriving DecidableEq, Repr

/-- How to call the program. -/
def usage : String :=
  Text.unlines
    ["Usage: df-cli [OPTIONS] <COMMAND>",
     "",
     "Commands:",
     "  parse     [INPUT] [--script] [--full] [--pretty]",
     "  render    [INPUT] [-f FORMAT] [-o FILE] [-c FILE] [--script]",
     "  validate  [INPUT] [--json] [--strict] [--script]",
     "  batch     <FOLDER> -o FOLDER [-f FORMAT] [-c FILE] [--fail-fast]",
     "",
     "Options:",
     "  -v, --verbose  Show more of the log, also repeated",
     "  -q, --quiet    Show errors only",
     "  -h, --help     Print this text",
     "  -V, --version  Print the version"]

/-- The version of the program. -/
def version : String := "df-cli 0.1.0\n"

/-- What the program leaves when there is no command to run. -/
def ofStop : Stop → Outcome
  | .usage => { exit := 2, errors := usage }
  | .help => { exit := 0, output := usage }
  | .version => { exit := 0, output := version }

/-- What the program leaves at the end of a command. -/
def ofEnding (level : LogLevel) (e : Ending) : Outcome :=
  { exit := if e.failure.isNone && e.valid then 0 else 1
    output := e.output
    errors := renderLog level e.log ++ e.notes ++ (e.failure.map Failure.report).getD "" }

/-- What the program does with the words that it is called with. -/
def run (files : FileAccess m) (words : List String) : m Outcome := do
  match Invocation.ofWords words with
  | .error stop => return ofStop stop
  | .ok invocation => return ofEnding invocation.level (← perform files invocation.command)

end Program

end FlowDoc
