import FlowDoc.Command.Program

/-!
# The command line

The operations on the files of the machine, and the entry of the program.
-/

namespace FlowDoc

/-- The failure that a number of the system stands for. -/
def FileError.ofNumber (number : UInt32) (text : String) : FileError :=
  match number.toNat with
  | 2 => .notFound
  | 17 => .alreadyExists
  | 20 => .notFolder
  | 21 => .isFolder
  | 36 => .nameTooLong
  | _ => .other text

/-- The failure that the system reports. -/
def FileError.ofSystem (error : IO.Error) : FileError :=
  match error with
  | .noFileOrDirectory _ number _ | .alreadyExists _ number _ | .inappropriateType _ number _
  | .invalidArgument _ number _ | .resourceExhausted _ number _ =>
    ofNumber number (toString error)
  | _ => .other (toString error)

/-- The outcome of an operation of the system. -/
def attempt {α : Type} (action : IO α) : IO (Except FileError α) := do
  match ← action.toBaseIO with
  | .ok a => return .ok a
  | .error e => return .error (.ofSystem e)

/-- The text of bytes that are one. -/
def textOfBytes (bytes : ByteArray) : Except FileError String :=
  match String.fromUTF8? bytes with
  | some text => .ok text
  | none => .error .notText

/-- The operations on the files of the machine. -/
def machineFiles : FileAccess IO where
  input := attempt do (← IO.getStdin).readToEnd
  pathExists path := do ((← IO.currentDir) / path).pathExists
  read path := do
    return (← attempt (IO.FS.readBinFile path)).bind textOfBytes
  write path text := attempt (IO.FS.writeFile path text)
  list path := attempt do
    let entries ← ((← IO.currentDir) / path).readDir
    entries.toList.mapM fun entry => do
      return (entry.fileName, !(← entry.path.isDir))
  makeFolder path := attempt (IO.FS.createDirAll path)

end FlowDoc

open FlowDoc in
/-- Runs the program on the files of the machine. -/
def main (words : List String) : IO UInt32 := do
  let outcome ← Program.run machineFiles words
  (← IO.getStdout).putStr outcome.output
  (← IO.getStderr).putStr outcome.errors
  return outcome.exit.toUInt32
