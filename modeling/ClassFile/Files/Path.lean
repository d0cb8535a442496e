/-!
# Paths

A path is a text of names with slashes between them. An empty name and the name `.` say
nothing, so that a slash or `/.` at the end changes neither the last name nor its
extension.
-/

namespace ClassFile.Path

/-- The names of a path, those that say nothing included. -/
def parts (path : String) : List String := path.splitOn "/"

/-- Whether a name says nothing. -/
def isIdle (name : String) : Bool := name = "" || name = "."

/-- The last name of a path, unless it leads upwards. -/
def lastName? (path : String) : Option String :=
  match ((parts path).filter fun name => !isIdle name).getLast? with
  | none => none
  | some name => if name = ".." then none else some name

/-- What follows the last dot of a name that does not begin with this dot. -/
def extensionOf? (name : List Char) : Option (List Char) :=
  let reversed := name.reverse
  match reversed.dropWhile (· ≠ '.') with
  | [] => none
  | [_] => none
  | _ :: _ :: _ => some (reversed.takeWhile (· ≠ '.')).reverse

/-- The extension of the last name of a path. -/
def extension? (path : String) : Option String :=
  (lastName? path).bind fun name => (extensionOf? name.toList).map String.ofList

/-- Whether a path is that of a class file. -/
def isClassFile (path : String) : Bool := extension? path = some "class"

/-- Whether a path is that of an archive. -/
def isArchive (path : String) : Bool :=
  extension? path = some "jar" || extension? path = some "zip"

/-- The path of a name in a directory. -/
def join (directory name : String) : String :=
  if directory.toList.getLast? = some '/' then directory ++ name else directory ++ "/" ++ name

end ClassFile.Path
