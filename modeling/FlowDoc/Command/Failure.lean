import FlowDoc.Dataflow
import FlowDoc.Render.Document
import FlowDoc.Text.Lines

/-!
# Failures of commands

A failure is told by what could not be done and, in turn, by what caused it.

## Main definitions

* `Failure`: a message and the messages of its causes.
* `Failure.report`: the failure as the last words of the program.
* `Failure.inline`: the failure on one line.
-/

namespace FlowDoc

/-- What could not be done, and what caused it. -/
structure Failure where
  message : String
  causes : List String := []
deriving DecidableEq, Repr

namespace Failure

/-- A failure with one more message about it. -/
def within (f : Failure) (message : String) : Failure :=
  ⟨message, f.message :: f.causes⟩

/-- The failure of an operation on a file. -/
def ofFile (message : String) (error : FileError) : Failure :=
  ⟨message, [error.message]⟩

/-- The failure to read a data flow. -/
def ofLoad : LoadError → Failure
  | .json fault => ⟨(LoadError.json fault).message, [fault.message]⟩
  | .script error => ⟨error.message, []⟩

/-- The failure to write a document. -/
def ofRender (error : RenderError) : Failure :=
  ⟨error.message, error.causes⟩

/-- The line of a cause that is the only one. -/
def onlyCause (cause : String) : String :=
  "\n    " ++ Text.indentRest "    " cause

/-- The line of a cause among others. -/
def numberedCause (cause : String) (n : Nat) : String :=
  "\n    " ++ toString n ++ ": " ++ Text.indentRest "       " cause

/-- The failure as the last words of the program. -/
def report (f : Failure) : String :=
  "Error: " ++ f.message ++
    (match f.causes with
    | [] => ""
    | [cause] => "\n\nCaused by:" ++ onlyCause cause
    | causes =>
      "\n\nCaused by:" ++ String.join (causes.zipIdx.map fun (cause, n) => numberedCause cause n))
    ++ "\n"

/-- The failure on one line. -/
def inline (f : Failure) : String :=
  ": ".intercalate (f.message :: f.causes)

end Failure

end FlowDoc
