import FlowDoc.Command.Failure
import FlowDoc.Command.Log
import FlowDoc.Files.Path

/-!
# Documenting a folder

All data flow documents of a folder are read first, in the order of their file names. Then their
documents are written, in the same order, each under the name of its data flow, and last a file that
lists the names. A document whose name is taken, or that cannot be written, is left out; a run may
also stop there.

## Main definitions

* `Batch.inputs`: the files of a folder that are documented.
* `Batch.stemOf`: the name under which a data flow is documented.
* `Batch.writeAll`: writes the documents and accounts for each.
* `Batch.publish`: writes the documents and the file that lists them.
* `Batch.run`: documents a folder.
-/

namespace FlowDoc

namespace Batch

variable {m : Type → Type} [Monad m]

/-- A document that waits to be written. -/
structure Rendered where
  /-- The file name without its extension. -/
  stem : String
  content : String
deriving DecidableEq, Repr

/-- How a run goes about its work. -/
structure Options where
  format : Format := .markdown
  /-- Whether the first document that is left out ends the run. -/
  failFast : Bool := false
deriving DecidableEq, Repr

/-- A document that was written. -/
structure Written where
  input : String
  target : String
  rendered : Rendered
deriving DecidableEq, Repr

/-- An input without a document, and why it has none. -/
structure Skipped where
  input : String
  error : String
deriving DecidableEq, Repr

/-- What became of the inputs. -/
structure Report where
  written : List Written := []
  failures : List Skipped := []
  log : List LogLine := []
deriving DecidableEq, Repr

/-- A line of the log of a run. -/
def logLine (level : LogLevel) (message : String) : LogLine :=
  ⟨level, "df_cli::batch", message⟩

/-! ## Inputs -/

/-- Whether a file name is that of a data flow document. -/
def isInput (name : String) : Bool :=
  match Path.extension? name with
  | some extension => extension.toLower == "json"
  | none => false

/-- The files of a folder that are documented, in the order of their names. -/
def inputs (entries : List (String × Bool)) : List String :=
  (Text.byKey (entries.filter fun (name, isFile) => isFile && isInput name)).map (·.1)

/-! ## Rendering -/

/-- The name under which a data flow is documented: its own where that is a plain file name, and
that of its file otherwise. -/
def stemOf (fileName : String) (name : Option String) : String :=
  match name.map Text.trimmed with
  | some name => if Path.isPlainName name then name else Path.stem fileName
  | none => Path.stem fileName

/-- The warning about a data flow whose name is no plain file name. -/
def nameWarnings (input : String) (name : Option String) : List LogLine :=
  match name.map Text.trimmed with
  | some name =>
    if Path.isPlainName name || name = "" then []
    else
      [logLine .warn
        (input ++ ": data flow name '" ++ name ++
          "' is not a plain file name, using the file stem")]
  | none => []

/-- Reads the data flow at the path `input`, whose file is called `fileName`, and renders it. -/
def render (files : FileAccess m) (config : Config) (format : Format) (input fileName : String) :
    m (Except Failure Rendered × List LogLine) := do
  match ← files.read input with
  | .error e => return (.error (.ofFile ("Failed to read file: " ++ input) e), [])
  | .ok text =>
    let events := (Event.ofDocument text).map Event.logLine
    match Dataflow.ofDocument text with
    | .error e => return (.error (.ofLoad e), events)
    | .ok d =>
      let warnings := d.warnings.map fun w =>
        logLine .warn (input ++ ": " ++ w.finding.message)
      let log := events ++ warnings ++ nameWarnings input d.name
      match ← renderDocument files d.graph config format with
      | .error e => return (.error (.ofRender e), log)
      | .ok content => return (.ok ⟨stemOf fileName d.name, content⟩, log)

/-- Renders the data flow of the file `name` in a folder, together with the path of the file. -/
def renderInput (files : FileAccess m) (config : Config) (format : Format) (folder name : String) :
    m ((String × Except Failure Rendered) × List LogLine) := do
  let input := Path.join folder name
  let (outcome, log) ← render files config format input name
  return ((input, outcome), log)

/-! ## Writing -/

/-- The path of the document with a given stem. -/
def target (output : String) (format : Format) (stem : String) : String :=
  Path.join output (stem ++ "." ++ format.extension)

/-- Why the document of an input cannot be written, if it cannot; `taken` holds the stems of the
documents that were written. -/
def place (write : String → String → m (Except FileError Unit)) (output : String) (format : Format)
    (taken : List String) : Except Failure Rendered → m (Except String Rendered)
  | .error failure => return .error failure.inline
  | .ok rendered =>
    if rendered.stem ∈ taken then
      return .error ("another file already produced '" ++ rendered.stem ++ "'")
    else do
      let path := target output format rendered.stem
      match ← write path rendered.content with
      | .ok () => return .ok rendered
      | .error e => return .error ("Failed to write to: " ++ path ++ ": " ++ e.message)

/-- The report with one more document that was written. -/
def Report.addWritten (r : Report) (output : String) (format : Format) (input : String)
    (rendered : Rendered) : Report :=
  let path := target output format rendered.stem
  { r with
    written := r.written ++ [⟨input, path, rendered⟩]
    log := r.log ++ [logLine .info ("Wrote " ++ path ++ " from " ++ input)] }

/-- The report with one more input that was left out. -/
def Report.addSkipped (r : Report) (input error : String) : Report :=
  { r with
    failures := r.failures ++ [⟨input, error⟩]
    log := r.log ++ [logLine .warn ("Skipping " ++ input ++ ": " ++ error)] }

/-- The stems of the documents that were written, in order. -/
def Report.stems (r : Report) : List String :=
  r.written.map (·.rendered.stem)

/-- Writes the documents of the inputs in order and adds them to a report; the flag says whether the
run goes on to its end, and if not, the last failure is the one that stopped it. -/
def writeAll (write : String → String → m (Except FileError Unit)) (output : String)
    (options : Options) (r : Report) : List (String × Except Failure Rendered) → m (Report × Bool)
  | [] => return (r, true)
  | (input, outcome) :: rest => do
    match ← place write output options.format r.stems outcome with
    | .ok rendered =>
      writeAll write output options (r.addWritten output options.format input rendered) rest
    | .error error =>
      if options.failFast then
        return ({ r with failures := r.failures ++ [⟨input, error⟩] }, false)
      else
        writeAll write output options (r.addSkipped input error) rest

/-- The text that lists the documents: the stems between line feeds, and one at the end unless there
is nothing to end. -/
def orderText (stems : List String) : String :=
  let order := "\n".intercalate stems
  if order = "" then order else order ++ "\n"

/-- The name of the file that lists the documents. -/
def orderFile : String := ".order"

/-- Makes the folder `output`, writes the documents of the inputs and then the file that lists them.
The log is yielded also when something fails. -/
def publish (files : FileAccess m) (output : String) (options : Options)
    (rendered : List (String × Except Failure Rendered)) :
    m (Except Failure Report × List LogLine) := do
  match ← files.makeFolder output with
  | .error e => return (.error (.ofFile ("Failed to create folder: " ++ output) e), [])
  | .ok () =>
    let (report, complete) ← writeAll files.write output options {} rendered
    match complete, report.failures.getLast? with
    | false, some failure =>
      return (.error ⟨failure.input ++ ": " ++ failure.error, []⟩, report.log)
    | _, _ =>
      let path := Path.join output orderFile
      match ← files.write path (orderText report.stems) with
      | .error e => return (.error (.ofFile ("Failed to write to: " ++ path) e), report.log)
      | .ok () => return (.ok report, report.log)

/-! ## Runs -/

/-- Documents the folder `folder` in the folder `output`. The log is yielded also when the run
fails. -/
def run (files : FileAccess m) (folder output : String) (config : Config) (options : Options) :
    m (Except Failure Report × List LogLine) := do
  match ← files.list folder with
  | .error e => return (.error (.ofFile ("Failed to read folder: " ++ folder) e), [])
  | .ok entries =>
    let names := inputs entries
    let start := logLine .info
      ("Documenting " ++ toString names.length ++ " data flow files from " ++ folder)
    let rendered ← names.mapM (renderInput files config options.format folder)
    -- The output folder is made only now, when all inputs were read.
    let (outcome, log) ← publish files output options (rendered.map (·.1))
    return (outcome, start :: rendered.flatMap (·.2) ++ log)

end Batch

end FlowDoc
