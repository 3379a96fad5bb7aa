import Std.Data.ExtTreeMap
import Std.Data.ExtTreeSet

/-!
# File trees

    Files and folders below one root. A place in the tree is known by the
    names that lead to it from the root, so that two paths to one place
    name one file. A path is followed name by name, and every name needs
    an existing folder to start from: behind a file, and behind a folder
    that does not exist, no path leads anywhere, not even back.
-/

namespace Evm.Fixture

/-! ## Places -/

/-- A place in a tree: the names of the folders around it, from the root on,
    and its own name. The root is the empty list. -/
abbrev Place := List String

/-- Whether a name on a path leads down to something of that name. The other
    names are those of the folder itself and of the folder around it. -/
def goesDown (name : String) : Bool := name ≠ "" ∧ name ≠ "." ∧ name ≠ ".."

/-- Where a name leads from a place. Around the root there is nothing. -/
def step? (here : Place) (name : String) : Option Place :=
  if goesDown name then some (here ++ [name])
  else if name = ".." then
    if here.isEmpty then none else some here.dropLast
  else some here

/-- The names on a path. A path that starts with a slash leads outside the
    tree. -/
def pathNames? (path : String) : Option (List String) :=
  if path.startsWith "/" then none else some (path.splitOn "/")

/-! ## Trees -/

/-- The files with their texts, and the folders other than the root. -/
structure FileTree where
  files : Std.ExtTreeMap Place String compare
  folders : Std.ExtTreeSet Place compare

namespace FileTree

/-- The tree of the root alone. -/
def empty : FileTree := ⟨∅, ∅⟩

/-- Whether a place is a folder. -/
def isFolder (tree : FileTree) (place : Place) : Bool :=
  place.isEmpty || tree.folders.contains place

/-- Whether a place is a file. -/
def isFile (tree : FileTree) (place : Place) : Bool := tree.files.contains place

/-! ## Following a path -/

/-- The place where names lead, each of them from an existing folder. -/
def follow? (tree : FileTree) (here : Place) : List String → Option Place
  | [] => some here
  | name :: rest =>
    if tree.isFolder here then (step? here name).bind fun next => tree.follow? next rest
    else none

/-- The place where a path leads from the root. There may be nothing at it. -/
def place? (tree : FileTree) (path : String) : Option Place :=
  (pathNames? path).bind (tree.follow? [])

/-! ## Growing -/

/-- Make a folder, unless it exists. A file cannot become one. -/
def addFolder? (tree : FileTree) (place : Place) : Option FileTree :=
  if tree.isFile place then none
  else if place.isEmpty then some tree
  else some { tree with folders := tree.folders.insert place }

/-- Make every folder that names pass through, and go to the last of them. -/
def addFolders? (tree : FileTree) (here : Place) : List String → Option (FileTree × Place)
  | [] => some (tree, here)
  | name :: rest => do
    let next ← step? here name
    let tree ← tree.addFolder? next
    tree.addFolders? next rest

/-- Write a file, with the folders on its path. A file that is there already
    is replaced; a folder is not. -/
def insert? (tree : FileTree) (path text : String) : Option FileTree := do
  let names ← pathNames? path
  let name ← names.getLast?
  guard (goesDown name)
  let (tree, folder) ← tree.addFolders? [] names.dropLast
  let place := folder ++ [name]
  guard !tree.isFolder place
  return { tree with files := tree.files.insert place text }

/-- Write a file, or leave the tree as it is where no file can be written. -/
def insert (tree : FileTree) (path text : String) : FileTree :=
  (tree.insert? path text).getD tree

/-- The tree of some files, written one after another. -/
def ofList (entries : List (String × String)) : FileTree :=
  entries.foldl (fun tree entry => tree.insert entry.1 entry.2) empty

end FileTree

end Evm.Fixture
