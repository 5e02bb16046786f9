import FlowDoc.Files.Access
import FlowDoc.Files.Path

/-!
# Trees of files

A tree of files is a value: the folders and files below a folder, by the names that lead to them.

## Main definitions

* `FileTree`: the folders and files.
* `FileTree.walk`: what a path leads to.
* `FileTree.access`: the operations on files, on a tree.
-/

namespace FlowDoc

/-- A folder, or a file with its bytes. -/
inductive FileEntry where
  | folder
  | file (bytes : List UInt8)
deriving DecidableEq, Repr

/-- The folders and files below a folder, by the names that lead to them. -/
structure FileTree where
  entries : List (List String × FileEntry) := []
  /-- The bytes that a program is fed. -/
  input : List UInt8 := []
deriving DecidableEq, Repr

namespace FileTree

/-- What a path leads to. -/
inductive Target where
  | folder (path : List String)
  | file (path : List String) (bytes : List UInt8)
  /-- Nothing, in a folder that is there. -/
  | missing (path : List String)
deriving DecidableEq, Repr

/-- The greatest number of bytes in a name. -/
def nameBound : Nat := 255

/-- The greatest number of bytes in a path. -/
def pathBound : Nat := 4095

/-- The folder around a folder. Those around the whole tree have no names that are known. -/
def around (here : List String) : List String :=
  if here = [Path.root] then here
  else if here.all (· = "..") then ".." :: here
  else here.dropLast

/-- What the names along a path lead to from a folder. -/
def walk (t : FileTree) (here : List String) : List String → Except FileError Target
  | [] => .ok (.folder here)
  | name :: rest =>
    if name = Path.root then t.walk [name] rest
    else if name = "." then t.walk here rest
    else if name = ".." then t.walk (around here) rest
    else if nameBound < name.utf8ByteSize then .error .nameTooLong
    else match t.entries.lookup (here ++ [name]) with
      | some .folder => t.walk (here ++ [name]) rest
      | some (.file bytes) =>
        if rest = [] then .ok (.file (here ++ [name]) bytes) else .error .notFolder
      | none => if rest = [] then .ok (.missing (here ++ [name])) else .error .notFound

/-- The folder that the names along a path lead to. -/
def walkToFolder (t : FileTree) (names : List String) : Except FileError (List String) := do
  match ← t.walk [] names with
  | .folder here => return here
  | .file .. => .error .notFolder
  | .missing _ => .error .notFound

/-- The names along a path that is no longer than paths may be. -/
def namesOf (path : String) : Except FileError (List String) :=
  if '\x00' ∈ path.toList then .error .nulInName
  else if pathBound < path.utf8ByteSize then .error .nameTooLong
  else .ok (Path.parts path)

/-- What the names of a path lead to. -/
def resolve (t : FileTree) (path : String) : Except FileError Target := do
  let names ← namesOf path
  if names = [] then .error .notFound else t.walk [] names

/-- What a path leads to. A file does not answer a path that asks for a folder. -/
def find (t : FileTree) (path : String) : Except FileError Target := do
  match ← t.resolve path with
  | .file here bytes =>
    if Path.asksForFolder path then .error .notFolder else return .file here bytes
  | target => return target

/-- The tree with a new entry in place of the one at the same path. -/
def put (t : FileTree) (path : List String) (entry : FileEntry) : FileTree :=
  { t with entries := t.entries.filter (·.1 ≠ path) ++ [(path, entry)] }

/-- The tree with an entry, and with the folders that it lies in. -/
def add (t : FileTree) (path : List String) (entry : FileEntry) : FileTree :=
  let folders := (List.range path.length).tail.map path.take
  (folders.foldl (fun t folder => t.put folder .folder) t).put path entry

/-- The text of bytes that are one. -/
def textOf (bytes : List UInt8) : Except FileError String :=
  match String.fromUTF8? ⟨bytes.toArray⟩ with
  | some text => .ok text
  | none => .error .notText

/-- The bytes of a text. -/
def bytesOf (text : String) : List UInt8 :=
  text.toUTF8.toList

/-- The text of a file. -/
def read (t : FileTree) (path : String) : Except FileError String := do
  match ← t.find path with
  | .file _ bytes => textOf bytes
  | .folder _ => .error .isFolder
  | .missing _ => .error .notFound

/-- The tree after a text became the content of a file. A path that asks for a folder names no file
to write, whatever its last name leads to. -/
def write (t : FileTree) (path text : String) : Except FileError FileTree := do
  if Path.asksForFolder path then
    let _ ← t.walkToFolder (← namesOf path).dropLast
    .error .isFolder
  else
    match ← t.resolve path with
    | .folder _ => .error .isFolder
    | .file here _ | .missing here => return t.put here (.file (bytesOf text))

/-- The names in a folder, and whether each is that of a file. -/
def list (t : FileTree) (path : String) : Except FileError (List (String × Bool)) := do
  match ← t.find path with
  | .folder here =>
    return t.entries.filterMap fun (path, entry) =>
      if path.dropLast = here then path.getLast?.map (·, entry ≠ .folder) else none
  | .file .. => .error .notFolder
  | .missing _ => .error .notFound

/-- The tree with a new folder, within one that is there. -/
def makeNew (t : FileTree) (names : List String) : Except FileError FileTree := do
  let here ← t.walkToFolder names.dropLast
  let name := names.getLastD "."
  if Path.isPlace name then .error .alreadyExists
  else if nameBound < name.utf8ByteSize then .error .nameTooLong
  else if (t.entries.lookup (here ++ [name])).isSome then .error .alreadyExists
  else return t.put (here ++ [name]) .folder

/-- The tree with a new folder, or the tree itself when the folder is there. -/
def makeUnlessThere (t : FileTree) (names : List String) : Except FileError FileTree :=
  match t.makeNew names, t.walkToFolder names with
  | .error _, .ok _ => .ok t
  | result, _ => result

/-- The tree with the first folder of a lineage. When a folder on its way is missing, the next one
of the lineage is made before it, and so on. -/
def makeLineage (t : FileTree) : (lineage : List (List String)) → Except FileError FileTree
  | [] => .ok t
  | names :: older =>
    match t.makeNew names with
    | .error .notFound => do (← t.makeLineage older).makeUnlessThere names
    | _ => t.makeUnlessThere names

/-- The tree with a folder and those that it lies in. -/
def makeFolder (t : FileTree) (path : String) : Except FileError FileTree := do
  t.makeLineage (Path.lineage (← namesOf path))

/-- Makes a new tree the current one, when there is one. -/
def update (result : Except FileError FileTree) : StateM FileTree (Except FileError Unit) :=
  match result with
  | .ok t => do
    set t
    return .ok ()
  | .error e => return .error e

/-- The operations on files, on the current tree. -/
def access : FileAccess (StateM FileTree) where
  input := return textOf (← get).input
  pathExists path := do
    match (← get).find path with
    | .ok (.missing _) => return false
    | .ok _ => return true
    | .error _ => return false
  read path := return (← get).read path
  write path text := do update ((← get).write path text)
  list path := return (← get).list path
  makeFolder path := do update ((← get).makeFolder path)

/-- Whether a path stays below the folder of a tree. -/
def isWithin (path : List String) : Bool :=
  path.head?.all fun name => !Path.isPlace name

/-- The files of a tree that another one does not hold, with their paths. -/
def newFiles (before after : FileTree) : List (List String × List UInt8) :=
  after.entries.filterMap fun (path, entry) =>
    match entry with
    | .file bytes =>
      if isWithin path ∧ before.entries.lookup path ≠ some entry then some (path, bytes) else none
    | .folder => none

end FileTree

end FlowDoc
