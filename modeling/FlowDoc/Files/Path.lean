import FlowDoc.Text.Cut

/-!
# Paths

A path is the names of folders, and last of a file or a folder, between slashes. It starts from the
current folder, or with a slash from the root of all folders.

## Main definitions

* `Path.parts`: the names along a path.
* `Path.lineage`: a path and the paths of the folders on its way.
* `Path.join`: the path of a name within a folder.
* `Path.extension?`, `Path.stem`: what stands after and before the last dot of a file name.
* `Path.isPlainName`: whether a text names a file within a folder.
-/

namespace FlowDoc.Path

/-- The name of the root, which no other folder has. -/
def root : String := "/"

/-- The names along a path. -/
def parts (path : String) : List String :=
  let names := ((path.toList.splitOn '/').map String.ofList).filter (· ≠ "")
  if path.startsWith "/" then root :: names else names

/-- Whether a name is not that of an entry of a folder, but of a folder by its place: of the current
one, the one around it or the root. -/
def isPlace (name : String) : Bool :=
  name == "." || name == ".." || name == root

/-- The names along a path, and then along each path that it continues, the longest first. The
latter are without dots, since a dot adds nothing to a path that it does not end. -/
def lineage (names : List String) : List (List String) :=
  let plain := names.filter (· ≠ ".")
  names :: (List.range plain.length).tail.reverse.map plain.take

/-- Whether a path says by a slash at its end that it leads to a folder. -/
def asksForFolder (path : String) : Bool :=
  path.endsWith "/"

/-- The path of a name within a folder. -/
def join (folder name : String) : String :=
  if folder = "" ∨ folder.endsWith "/" then folder ++ name else folder ++ "/" ++ name

/-- What stands before and after the last dot of a file name, unless the dot is its first
character. -/
def splitName? (name : String) : Option (String × String) :=
  match Text.cut ['.'] name.toList.reverse with
  | none => none
  | some (after, before) =>
    if before = [] then none
    else some (String.ofList before.reverse, String.ofList after.reverse)

/-- What stands after the last dot of a file name. -/
def extension? (name : String) : Option String :=
  (splitName? name).map (·.2)

/-- A file name without its extension. -/
def stem (name : String) : String :=
  match splitName? name with
  | some (before, _) => before
  | none => name

/-- Whether a text names a file within a folder: it holds no slash of either kind, and is not empty
and not one of the two names that every folder has for itself and for its parent. -/
def isPlainName (name : String) : Bool :=
  name.toList.all (fun c => c ≠ '/' ∧ c ≠ '\\') && name ≠ "" && name ≠ "." && name ≠ ".."

end FlowDoc.Path
