import ClassFile.Files.PathGlob.Parser
import ClassFile.Files.Tree
import ClassFile.Text.Blank

/-!
# Ignored files

A directory may hold a file `.ignore` with a rule in each line, for itself and all below
it. A rule is a glob for paths. A rule with a slash, except at its end, is for the path
from the directory of the rules, and one without is for a name anywhere. A slash at the
end confines the rule to directories, and an exclamation mark in front makes it an
exemption. Lines that are empty or begin with `#` are no rules, and a backslash in front
of a character takes its meaning away.

Of several rules that match, the last one decides, and of several directories with
rules that match, the nearest one.
-/

namespace ClassFile.Ignore

/-- A rule about paths. -/
structure Rule where
  glob : PathGlob
  directoriesOnly : Bool
  /-- Whether what matches is not ignored. -/
  exempts : Bool
  deriving Repr

/-! ### Rules -/

/-- Drops blanks at the end of a line, unless the last one is escaped. -/
def withoutTrailing (line : List Char) : List Char :=
  match line.reverse with
  | ' ' :: '\\' :: _ => line
  | reversed => (reversed.dropWhile Text.isBlank).reverse

/-- What stands for any number of directories at the start of a glob, and what stands for
all that is below at its end. -/
def anywhere : List Char := ['*', '*', '/']

@[inherit_doc anywhere]
def allBelow : List Char := ['/', '*', '*']

/-- The text of the glob for the path in a rule: from the directory of the rules if the
path is rooted, and from anywhere if it is a single name. A path that ends in any number
of directories is for all that is in them, and not for the directory itself. -/
def globText (rooted : Bool) (path : List Char) : List Char :=
  let fixed :=
    rooted || path.contains '/' || anywhere.isPrefixOf path || path = ['*', '*']
  let path := if fixed then path else anywhere ++ path
  if allBelow.isSuffixOf path then path ++ ['/', '*'] else path

/-- The rule that is written so, but for its exclamation mark. A path that is for
directories only loses its slash, and a backslash that stood before this. -/
def ofPath? (exempts : Bool) (path : List Char) : Option Rule :=
  let rooted := path.head? = some '/'
  let path := if rooted then path.tail else path
  let directoriesOnly := path.getLast? = some '/'
  let path := if directoriesOnly then path.dropLast else path
  let path :=
    if directoriesOnly && path.getLast? = some '\\' then path.dropLast else path
  (PathGlob.ofChars? (globText rooted path)).map fun glob => ⟨glob, directoriesOnly, exempts⟩

/-- The rule in a line, if it is one and its path is a glob. -/
def ofLine? (line : List Char) : Option Rule :=
  if line.head? = some '#' then none
  else
    match withoutTrailing line with
    | [] => none
    | '\\' :: '!' :: path => ofPath? false ('!' :: path)
    | '\\' :: '#' :: path => ofPath? false ('#' :: path)
    | '!' :: path => ofPath? true path
    | path => ofPath? false path

/-! ### Lines -/

/-- Splits bytes at line feeds. Nothing after the last line feed is no line. -/
def linesOf : (begun : Bytes) → Bytes → List Bytes
  | begun, [] => if begun.isEmpty then [] else [begun.reverse]
  | begun, byte :: rest =>
    if byte = 0x0A then begun.reverse :: linesOf [] rest else linesOf (byte :: begun) rest

/-- The text of a line, without the carriage return at its end, if it is UTF-8. -/
def lineText? (line : Bytes) : Option (List Char) :=
  let line := if line.getLast? = some 0x0D then line.dropLast else line
  (String.fromUTF8? ⟨line.toArray⟩).map String.toList

/-- The texts of lines, up to the first that has none. -/
def lineTexts : List Bytes → List (List Char)
  | [] => []
  | line :: lines =>
    match lineText? line with
    | none => []
    | some text => text :: lineTexts lines

/-- The mark that a text may begin with to tell how it is encoded. -/
def byteOrderMark : Char := Char.ofNat 0xFEFF

/-- The rules in a file. Marks at its beginning are not looked at. -/
def rulesOf (bytes : Bytes) : List Rule :=
  let texts := match lineTexts (linesOf [] bytes) with
    | [] => []
    | first :: others => first.dropWhile (· = byteOrderMark) :: others
  texts.filterMap ofLine?

/-! ### Directories with rules -/

/-- The rules of a directory, with the names on the way from there to another one below
it, as the rules see it. -/
structure Scope where
  rules : List Rule
  way : List String
  deriving Repr

/-- What the rules of a directory decide about an entry of another one: whether it is
ignored, or nothing. -/
def Scope.decides (scope : Scope) (name : String) (isDirectory : Bool) : Option Bool :=
  let path := ("/".intercalate (scope.way ++ [name])).toUTF8.toList
  let matching := scope.rules.filter fun rule =>
    (isDirectory || !rule.directoriesOnly) && rule.glob.accepts path
  matching.getLast?.map fun rule => !rule.exempts

/-- Whether an entry is ignored, the nearest rules given first. -/
def isIgnored (scopes : List Scope) (name : String) (isDirectory : Bool) : Bool :=
  (scopes.findSome? fun scope => scope.decides name isDirectory).getD false

/-- The rules as seen from an entry, which is a directory. -/
def descend (scopes : List Scope) (name : String) : List Scope :=
  scopes.map fun scope => { scope with way := scope.way ++ [name] }

/-- What rules see in front of the names in a directory that a search begins at. If the
path of the directory has nothing but dots after a first `./`, they see these dots. -/
def startingWay (path : String) : List String :=
  match Path.parts path with
  | "." :: "." :: others =>
    if others.all Path.isIdle then
      "." :: (if others.getLast? = some "" then others.dropLast else others)
    else []
  | _ => []

/-- The rules that entries of a directory bring along. -/
def ownScope (entries : List (String × FileTree)) : Scope :=
  match entries.lookup ".ignore" with
  | some (.file bytes) => ⟨rulesOf bytes, []⟩
  | _ => ⟨[], []⟩

/-- The rules that hold at a place because of the directories above it. -/
def scopesAbove : (above : List (String × FileTree)) → List Scope
  | [] => []
  | (name, parent) :: above => descend (ownScope parent.entries :: scopesAbove above) name

end ClassFile.Ignore
