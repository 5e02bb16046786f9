/-!
# Access to files

A program that works on files is written against the few operations that it needs. It runs on the
files of a machine as well as on a tree of files that is a value.

## Main definitions

* `FileError`: why an operation fails, with its wording.
* `FileAccess`: the operations.
-/

namespace FlowDoc

/-- Why an operation on a file fails. -/
inductive FileError where
  | notFound
  | alreadyExists
  | notFolder
  | isFolder
  | nameTooLong
  /-- The path holds a character that no file name may hold. -/
  | nulInName
  /-- The bytes of the file are no text. -/
  | notText
  /-- Any other failure, in the words of the system. -/
  | other (text : String)
deriving DecidableEq, Repr

/-- The wording of a failure. -/
def FileError.message : FileError → String
  | .notFound => "No such file or directory (os error 2)"
  | .alreadyExists => "File exists (os error 17)"
  | .notFolder => "Not a directory (os error 20)"
  | .isFolder => "Is a directory (os error 21)"
  | .nameTooLong => "File name too long (os error 36)"
  | .nulInName => "file name contained an unexpected NUL byte"
  | .notText => "stream did not contain valid UTF-8"
  | .other text => text

/-- What a program may do with files, named by their paths. -/
structure FileAccess (m : Type → Type) where
  /-- The text that the program is fed. -/
  input : m (Except FileError String)
  /-- Whether a file or a folder has this path. -/
  pathExists : String → m Bool
  /-- The text of a file. -/
  read : String → m (Except FileError String)
  /-- Makes a text the content of a file, which may be new. -/
  write : (path text : String) → m (Except FileError Unit)
  /-- The names in a folder, and whether each is that of a file. -/
  list : String → m (Except FileError (List (String × Bool)))
  /-- Makes a folder, and those that it lies in, unless they are there. -/
  makeFolder : String → m (Except FileError Unit)

end FlowDoc
