import FlowDoc.Command.Log
import FlowDoc.Render.Document

/-!
# Arguments

The words that a program is called with: options of the program, the name of a command, then its
options and its inputs. An option is written out after two hyphens or as one letter after one
hyphen, where letters may share the hyphen; a value follows an equals sign, the letter itself or in
the next word. After two hyphens alone all words are inputs.

## Main definitions

* `Command`: what the program is asked to do.
* `Invocation`: a command and how much of the log to show.
* `Invocation.ofWords`: reads the words.
-/

namespace FlowDoc

/-- The kinds of output of the command `render`. -/
inductive RenderFormat where
  | document (format : Format)
  | json
deriving DecidableEq, Repr

/-- What the program is asked to do. -/
inductive Command where
  | parse (input : String) (script full pretty : Bool)
  | render (input : String) (format : RenderFormat) (output config : Option String) (script : Bool)
  | validate (input : String) (json strict script : Bool)
  | batch (folder output : String) (format : Format) (config : Option String) (failFast : Bool)
deriving DecidableEq, Repr

/-- A command and the least grave lines of the log to show. -/
structure Invocation where
  level : LogLevel
  command : Command
deriving DecidableEq, Repr

/-- Why there is no command to run. -/
inductive Stop where
  /-- The words make no sense. -/
  | usage
  /-- The words ask for help. -/
  | help
  /-- The words ask for the version. -/
  | version
deriving DecidableEq, Repr

namespace Arguments

/-! ## Options -/

/-- What an option does. -/
inductive Role where
  /-- Shows more of the log each time. -/
  | verbose
  /-- Asks for help. -/
  | help
  /-- Asks for the version. -/
  | version
  /-- Stands once or not at all. -/
  | switch
  /-- Takes a value of a certain form, once. -/
  | valued (accepts : String → Bool)

/-- An option by its names: a word and perhaps a letter. -/
structure OptionSpec where
  long : String
  short : Option Char := none
  role : Role := .switch

/-- The options that may stand anywhere. -/
def globalOptions : List OptionSpec :=
  [{ long := "verbose", short := some 'v', role := .verbose },
   { long := "quiet", short := some 'q' },
   { long := "help", short := some 'h', role := .help }]

/-- The options before the command. -/
def programOptions : List OptionSpec :=
  globalOptions ++ [{ long := "version", short := some 'V', role := .version }]

/-- Accepts the words of a list. -/
def oneOf (words : List String) : Role :=
  .valued fun value => words.contains value

/-- Accepts any value. -/
def anyText : Role :=
  .valued fun _ => true

/-- Accepts any value that may be a path. -/
def anyPath : Role :=
  .valued fun value => value ≠ ""

/-- The option that names the configuration. -/
def configOption : OptionSpec :=
  { long := "config", short := some 'c', role := anyPath }

/-- The option that has the input read as a bare script. -/
def scriptOption : OptionSpec :=
  { long := "script" }

/-- What may follow the name of a command. -/
structure CommandSpec where
  options : List OptionSpec
  /-- Whether a value may be an input, the only one. -/
  acceptsInput : String → Bool := fun _ => true

/-- The commands by their names. -/
def commandSpec? : String → Option CommandSpec
  | "parse" => some { options := [scriptOption, { long := "full" }, { long := "pretty" }] }
  | "render" =>
    some
      { options :=
          [{ long := "format", short := some 'f',
             role := oneOf ["markdown", "mermaid", "html", "json"] },
           { long := "output", short := some 'o', role := anyText }, configOption,
           scriptOption] }
  | "validate" => some { options := [{ long := "json" }, { long := "strict" }, scriptOption] }
  | "batch" =>
    some
      { options :=
          [{ long := "output", short := some 'o', role := anyPath },
           { long := "format", short := some 'f', role := oneOf ["markdown", "html"] },
           configOption, { long := "fail-fast" }]
        acceptsInput := fun value => value ≠ "" }
  | _ => none

/-! ## Reading words -/

/-- What was read so far. -/
structure Seen where
  /-- How often more of the log was asked for. -/
  verbose : Nat := 0
  /-- The options that stand once, with their values. -/
  given : List (String × String) := []
  input : Option String := none

namespace Seen

/-- The value of an option. -/
def value? (s : Seen) (long : String) : Option String :=
  s.given.lookup long

/-- Whether an option was given. -/
def has (s : Seen) (long : String) : Bool :=
  (s.value? long).isSome

/-- Takes in an option that has no value. -/
def addPlain (s : Seen) (spec : OptionSpec) : Except Stop Seen :=
  match spec.role with
  | .verbose => .ok { s with verbose := s.verbose + 1 }
  | .help => .error .help
  | .version => .error .version
  | .switch =>
    if s.has spec.long then .error .usage
    else .ok { s with given := (spec.long, "") :: s.given }
  | .valued _ => .error .usage

/-- Takes in an option with its value. -/
def addValued (s : Seen) (spec : OptionSpec) (value : String) : Except Stop Seen :=
  match spec.role with
  | .valued accepts =>
    if s.has spec.long || !accepts value then .error .usage
    else .ok { s with given := (spec.long, value) :: s.given }
  | _ => .error .usage

/-- Takes in an input. -/
def addInput (s : Seen) (spec : CommandSpec) (value : String) : Except Stop Seen :=
  if s.input.isSome || !spec.acceptsInput value then .error .usage
  else .ok { s with input := some value }

end Seen

/-- Whether an option needs a value. -/
def OptionSpec.needsValue (spec : OptionSpec) : Bool :=
  match spec.role with
  | .valued _ => true
  | _ => false

/-- Whether a word may be the value of the option before it, or an input. -/
def isValue (word : String) : Bool :=
  word = "-" || !word.startsWith "-"

/-- What an option that needs a value does with the rest of its own word: the value that it holds,
if any. -/
def attached (rest : List Char) : Option String :=
  match rest with
  | [] => none
  | '=' :: value => some (String.ofList value)
  | value => some (String.ofList value)

/-- Reads the letters that share a hyphen; an option left over needs its value from the next
word. -/
def readLetters (options : List OptionSpec) (s : Seen) :
    List Char → Except Stop (Seen × Option OptionSpec)
  | [] => .ok (s, none)
  | c :: cs =>
    match options.find? (·.short == some c) with
    | none => .error .usage
    | some spec =>
      if spec.needsValue then
        match attached cs with
        | some value => do return (← s.addValued spec value, none)
        | none => .ok (s, some spec)
      else do readLetters options (← s.addPlain spec) cs

/-- Reads an option that is written out; an option left over needs its value from the next word. -/
def readLong (options : List OptionSpec) (s : Seen) (cs : List Char) :
    Except Stop (Seen × Option OptionSpec) :=
  let (name, value) := match Text.cut ['='] cs with
    | some (name, value) => (name, some (String.ofList value))
    | none => (cs, none)
  match options.find? (·.long == String.ofList name) with
  | none => .error .usage
  | some spec =>
    match value with
    | some value => do return (← s.addValued spec value, none)
    | none =>
      if spec.needsValue then .ok (s, some spec) else do return (← s.addPlain spec, none)

/-- Reads a word that starts with a hyphen. -/
def readOption (options : List OptionSpec) (s : Seen) (word : String) :
    Except Stop (Seen × Option OptionSpec) :=
  match word.toList with
  | '-' :: '-' :: name => readLong options s name
  | _ :: letters => readLetters options s letters
  | [] => .error .usage

/-- Reads the words that follow the name of a command; `pending` is an option that the next word is
the value of. -/
def readCommandWords (spec : CommandSpec) (pending : Option OptionSpec) (s : Seen) :
    List String → Except Stop Seen
  | [] => if pending.isSome then .error .usage else .ok s
  | word :: words =>
    match pending with
    | some option =>
      if isValue word then do
        readCommandWords spec none (← s.addValued option word) words
      else .error .usage
    | none =>
      -- After two hyphens alone, hyphens mean nothing.
      if word = "--" then words.foldlM (fun s input => s.addInput spec input) s
      else if isValue word then do
        readCommandWords spec none (← s.addInput spec word) words
      else do
        let (s, pending) ← readOption (spec.options ++ globalOptions) s word
        readCommandWords spec pending s words

/-- Reads the words up to the name of the command, and yields the words after it. -/
def readProgramWords (s : Seen) : List String → Except Stop (Seen × String × List String)
  | [] => .error .usage
  | word :: words =>
    if isValue word then .ok (s, word, words)
    else if word = "--" then .error .usage
    else do
      let (s, _) ← readOption programOptions s word
      readProgramWords s words

/-- What a request for help on the words after it yields. -/
def helpOn : List String → Stop
  | [] => .help
  | [name] => if (commandSpec? name).isSome || name = "help" then .help else .usage
  | _ => .usage

/-! ## Commands -/

/-- The kind of output that a word stands for. -/
def renderFormat : String → RenderFormat
  | "mermaid" => .document .mermaid
  | "html" => .document .html
  | "json" => .json
  | _ => .document .markdown

/-- The kind of document that a word stands for in a batch. -/
def batchFormat : String → Format
  | "html" => .html
  | _ => .markdown

/-- The command that was read, unless something is missing. -/
def commandOf (name : String) (s : Seen) : Except Stop Command :=
  let input := s.input.getD "-"
  let format := (s.value? "format").getD "markdown"
  match name with
  | "parse" => .ok (.parse input (s.has "script") (s.has "full") (s.has "pretty"))
  | "render" =>
    .ok
      (.render input (renderFormat format) (s.value? "output") (s.value? "config")
        (s.has "script"))
  | "validate" => .ok (.validate input (s.has "json") (s.has "strict") (s.has "script"))
  | _ =>
    match s.input, s.value? "output" with
    | some folder, some output =>
      .ok (.batch folder output (batchFormat format) (s.value? "config") (s.has "fail-fast"))
    | _, _ => .error .usage

/-- The least grave lines of the log to show. -/
def levelOf (quiet : Bool) (verbose : Nat) : LogLevel :=
  if quiet then .error
  else match verbose with
    | 0 => .warn
    | 1 => .info
    | 2 => .debug
    | _ => .trace

end Arguments

open Arguments in
/-- Reads the words that the program is called with. How much of the log to show may be said before
and after the name of the command; what is said after it counts. -/
def Invocation.ofWords (words : List String) : Except Stop Invocation := do
  let (before, name, rest) ← readProgramWords {} words
  match commandSpec? name with
  | none => .error (if name = "help" then helpOn rest else .usage)
  | some spec =>
    let after ← readCommandWords spec none {} rest
    let verbose := if after.verbose = 0 then before.verbose else after.verbose
    return {
      level := levelOf (before.has "quiet" || after.has "quiet") verbose
      command := ← commandOf name after }

end FlowDoc
