import ClassFile.Bytes
import ClassFile.Files.Path

/-!
# File trees

What is found on a disk below a directory: files with their bytes, and directories with
their entries in the order of the names.

A path is followed name by name from a directory. Everything but the last name has to be
a directory, and so has the last one if something follows it, be it only a slash.
-/

namespace ClassFile

/-- A file or a directory. -/
inductive FileTree where
  | file (bytes : Bytes)
  /-- A file whose bytes are kept from us. -/
  | locked
  | directory (entries : List (String × FileTree))
  deriving Inhabited

/-- Why there are no bytes at a path. -/
inductive FileFault where
  | missing
  | notDirectory
  | isDirectory
  | locked
  deriving DecidableEq, Repr

/-- Why there are no bytes at a path, in words. -/
def FileFault.message : FileFault → String
  | missing => "No such file or directory (os error 2)"
  | notDirectory => "Not a directory (os error 20)"
  | isDirectory => "Is a directory (os error 21)"
  | locked => "Permission denied (os error 13)"

namespace FileTree

/-- A directory without entries. -/
def empty : FileTree := .directory []

/-- The entries of a directory. -/
def entries : FileTree → List (String × FileTree)
  | .directory entries => entries
  | _ => []

/-- The bytes of a file. -/
def contents : FileTree → Except FileFault Bytes
  | .file bytes => .ok bytes
  | .locked => .error .locked
  | .directory _ => .error .isDirectory

/-- Gives an entry another content; a new entry takes its place in the order. -/
def putEntry (name : String) (change : Option FileTree → FileTree) :
    List (String × FileTree) → List (String × FileTree)
  | [] => [(name, change none)]
  | (other, tree) :: rest =>
    if other = name then (name, change (some tree)) :: rest
    else if name < other then (name, change none) :: (other, tree) :: rest
    else (other, tree) :: putEntry name change rest

/-- Changes what is at the end of some names, with directories on the way to it. -/
def alter (change : Option FileTree → FileTree) : (names : List String) → Option FileTree →
    FileTree
  | [], found => change found
  | name :: names, found =>
    .directory (putEntry name (alter change names) (found.getD empty).entries)

/-- Puts a file into a tree. -/
def putFile (tree : FileTree) (names : List String) (bytes : Bytes) : FileTree :=
  alter (fun _ => .file bytes) names (some tree)

/-- Puts a directory into a tree, unless there is something already. -/
def putDirectory (tree : FileTree) (names : List String) : FileTree :=
  alter (fun found => found.getD empty) names (some tree)

/-- A place in a tree: what is there, and the directories that it is in, with the name
under which each of them holds the next, the nearest first. -/
structure Place where
  tree : FileTree
  above : List (String × FileTree)

/-- Follows names from a place. -/
def follow (place : Place) : List String → Except FileFault Place
  | [] => .ok place
  | name :: names =>
    match place.tree with
    | .directory entries =>
      if Path.isIdle name then follow place names
      else if name = ".." then
        match place.above with
        | [] => .error .missing
        | (_, parent) :: above => follow ⟨parent, above⟩ names
      else match entries.lookup name with
        | some tree => follow ⟨tree, (name, place.tree) :: place.above⟩ names
        | none => .error .missing
    | _ => .error .notDirectory

/-- What is at a path, seen from the root of the tree. A path from elsewhere leads
nowhere. -/
def find (root : FileTree) (path : String) : Except FileFault Place :=
  if path = "" ∨ path.toList.head? = some '/' then .error .missing
  else follow ⟨root, []⟩ (Path.parts path)

end FileTree

/-- A disk: what is at a path. -/
abbrev Disk := String → Except FileFault FileTree.Place

end ClassFile
