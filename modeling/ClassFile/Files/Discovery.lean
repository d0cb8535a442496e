import ClassFile.Archive.Basic
import ClassFile.Batch
import ClassFile.Files.Ignore

/-!
# Finding class files

A path names a file, which is taken as it is, or a directory, of which all class files
and archives are taken that no rule ignores. They come in the order of their paths, name
by name, since a directory holds its entries in order and comes before them.

What cannot be read is a failure and does not keep the rest from being read. A directory
may have the name of a class file or an archive; then it is such a failure, and what is
in it is looked at all the same.
-/

namespace ClassFile.Discovery

/-- Whether a path is that of something to be read. -/
def isWanted (path : String) : Bool := Path.isClassFile path || Path.isArchive path

/-- Whether a tree is a directory. -/
def isDirectory : FileTree → Bool
  | .directory _ => true
  | _ => false

mutual

/-- What is wanted in a tree at a path, the tree itself included. -/
def wanted (scopes : List Ignore.Scope) (path : String) : FileTree → List (String × FileTree)
  | .directory entries =>
    (if isWanted path then [(path, .directory entries)] else []) ++
      wantedEntries (Ignore.ownScope entries :: scopes) path entries
  | tree => if isWanted path then [(path, tree)] else []

/-- What is wanted among entries of the directory at a path. -/
def wantedEntries (scopes : List Ignore.Scope) (path : String) :
    List (String × FileTree) → List (String × FileTree)
  | [] => []
  | (name, tree) :: rest =>
    let further := wantedEntries scopes path rest
    if Ignore.isIgnored scopes name (isDirectory tree) then further
    else wanted (Ignore.descend scopes name) (Path.join path name) tree ++ further

end

/-- What is to be read at a path. -/
def discover (disk : Disk) (path : String) : Except FileFault (List (String × FileTree)) := do
  let place ← disk path
  match place.tree with
  | .directory entries =>
    let own := { Ignore.ownScope entries with way := Ignore.startingWay path }
    let scopes := own :: Ignore.scopesAbove place.above
    return (if isWanted path then [(path, place.tree)] else []) ++
      wantedEntries scopes path entries
  | tree => return [(path, tree)]

/-- The class files in an archive at a path, in the order of its directory. -/
def inArchive (path : String) (archive : Bytes) : Except String (List Batch.Source) := do
  let entries ← (Archive.directory archive).mapError fun fault =>
    "Failed to read zip structure: " ++ path ++ ": " ++ fault.message
  let found ← entries.mapM fun entry => do
    let packed ← (Archive.packed archive entry).mapError ArchiveFault.message
    if entry.name.endsWith ".class" then
      let name := path ++ "!/" ++ entry.name
      let bytes ← (Archive.unpack entry packed).mapError fun fault =>
        "Failed to read " ++ name ++ ": " ++ fault.message
      return some ⟨name, bytes⟩
    else return none
  return found.filterMap id

/-- The class files in what is at a path. -/
def sources (path : String) (tree : FileTree) : Except String (List Batch.Source) :=
  if Path.isArchive path then
    match tree with
    | .file bytes => inArchive path bytes
    | .locked => .error ("Failed to open jar: " ++ path ++ ": " ++ FileFault.locked.message)
    | .directory _ =>
      .error ("Failed to mmap jar: " ++ path ++ ": No such device (os error 19)")
  else
    match tree.contents with
    | .ok bytes => .ok [⟨path, bytes⟩]
    | .error fault => .error ("Failed to read " ++ path ++ ": " ++ fault.message)

/-- The class files in all that was found, and what could not be read. -/
def gather : List (String × FileTree) → List Batch.Source × List Batch.Failure
  | [] => ([], [])
  | (path, tree) :: rest =>
    let (found, failures) := gather rest
    match sources path tree with
    | .ok more => (more ++ found, failures)
    | .error message => (found, ⟨path, message⟩ :: failures)

/-- Decodes all class files at a path. What could not be read comes first among the
failures. -/
def scan (disk : Disk) (path : String) : Except FileFault Batch := do
  let (sources, failures) := gather (← discover disk path)
  let batch := Batch.decodeAll {} sources {}
  return { batch with failures := failures ++ batch.failures }

end ClassFile.Discovery
