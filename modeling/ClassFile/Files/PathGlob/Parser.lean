import ClassFile.Files.PathGlob.Basic

/-!
# Reading globs for paths

A question mark stands for one byte of a name and a star for any run of them. Brackets
hold the characters of a set, with a dash between the ends of a range and `!` or `^` in
front of those to leave out. Braces hold branches with commas between them. A backslash
takes the meaning of the next character away.

Two stars that are a whole name of the path, or what a branch has instead of one, stand
for any number of directories; otherwise they are two runs.

A bracket that is not closed stands for itself, and so do all brackets after it.
-/

namespace ClassFile.PathGlob

/-! ### Sets -/

/-- The bytes of a character in UTF-8. -/
def bytesOf (c : Char) : Bytes := (String.singleton c).toUTF8.toList

/-- The ranges of characters in brackets, the last one first, after some that were found;
`afterDash` tells whether a dash was just read. None if a range ends before it begins. -/
def charRanges (found : List (Char × Char)) (afterDash : Bool) :
    List Char → Option (List (Char × Char))
  | [] => some (if afterDash then ('-', '-') :: found else found)
  | c :: rest =>
    match found with
    | [] => charRanges [(c, c)] false rest
    | (least, _) :: others =>
      if afterDash then
        if c < least then none else charRanges ((least, c) :: others) false rest
      else if c = '-' then charRanges found true rest
      else charRanges ((c, c) :: found) false rest

/-- The bytes that a range of characters adds to a set. Only the last byte of its first
character and the first byte of its last one make a range; the others stand for
themselves. -/
def byteRanges : Char × Char → List (UInt8 × UInt8)
  | (least, greatest) =>
    let single (byte : UInt8) := (byte, byte)
    let first := bytesOf least
    if least = greatest then first.map single
    else
      let last := bytesOf greatest
      first.dropLast.map single ++ [(first.getLastD 0, last.headD 0)] ++ last.tail.map single

/-- What follows an opening bracket. -/
structure Bracketed where
  negated : Bool
  /-- The characters in the brackets. -/
  body : List Char
  /-- Whether there is a closing bracket. -/
  isClosed : Bool
  deriving DecidableEq, Repr

/-- Reads what follows an opening bracket. A closing bracket that comes first stands for
itself. -/
def Bracketed.ofChars (chars : List Char) : Bracketed :=
  let negated := chars.head?.any fun c => c = '!' || c = '^'
  let chars := if negated then chars.tail else chars
  let later := chars.tail
  ⟨negated, chars.take 1 ++ later.takeWhile (· ≠ ']'), later.contains ']'⟩

/-- How many characters it takes with its closing bracket. -/
def Bracketed.length (bracketed : Bracketed) : Nat :=
  (if bracketed.negated then 1 else 0) + bracketed.body.length + 1

/-! ### Drafts -/

/-- A glob that is being read. The pieces of a branch, and branches, are kept with the last
one first. -/
structure Draft where
  /-- The pieces of the branch that is being read, or of the glob if no group is open. -/
  pieces : List Piece
  /-- For each open group its finished branches and the pieces before it, from the inner
  ones out. -/
  groups : List (List (List Piece) × List Piece)
  /-- Whether a bracket was not closed, so that brackets stand for themselves. -/
  plainBrackets : Bool

namespace Draft

/-- Adds a piece. -/
def add (draft : Draft) (piece : Piece) : Draft :=
  { draft with pieces := piece :: draft.pieces }

/-- Adds a character that stands for itself. -/
def addChar (draft : Draft) (c : Char) : Draft :=
  (bytesOf c).foldl (fun draft byte => draft.add (.byte (.single byte))) draft

/-- Opens a group. -/
def openGroup (draft : Draft) : Draft :=
  { draft with pieces := [], groups := ([], draft.pieces) :: draft.groups }

/-- Begins another branch of the group that is open. A comma outside groups stands for
itself. -/
def nextBranch (draft : Draft) : Draft :=
  match draft.groups with
  | [] => draft.addChar ','
  | (branches, before) :: groups =>
    { draft with pieces := [], groups := (draft.pieces.reverse :: branches, before) :: groups }

/-- Closes the group that is open. -/
def closeGroup? (draft : Draft) : Option Draft :=
  match draft.groups with
  | [] => none
  | (branches, before) :: groups =>
    let group := Piece.ofBranches (draft.pieces.reverse :: branches)
    some { draft with pieces := group :: before, groups }

/-- Reads two stars between the character `prev` and others. Gives with the draft how many
of the others belong to them: a slash does that ends the name. What stands before them, up
to the beginning of the name, becomes part of the piece that they make. -/
def addStars (draft : Draft) (prev : Option Char) (rest : List Char) : Draft × Nat :=
  let runs := ((draft.add .run).add .run, 0)
  let next := rest.head?
  let inGroup := !draft.groups.isEmpty
  match draft.pieces with
  | [] =>
    if next = none then (draft.add .leading, 0)
    else if next = some '/' then (draft.add .leading, 1)
    else runs
  | last :: before =>
    let atStart :=
      prev = some '/' || inGroup && (prev = some ',' || prev = some '{')
    let atEnd := next = none || inGroup && (next = some ',' || next = some '}')
    let replace (piece : Piece) : Draft :=
      let piece := match last with
        | .leading => .leading
        | .beneath => .beneath
        | _ => piece
      { draft with pieces := piece :: before }
    if !atStart then runs
    else if atEnd then (replace .beneath, 0)
    else if next = some '/' then (replace .inner, 1)
    else runs

/-- Reads an opening bracket with what follows it. -/
def addBrackets? (draft : Draft) (rest : List Char) : Option (Draft × Nat) :=
  if draft.plainBrackets then some (draft.addChar '[', 0)
  else do
    let bracketed := Bracketed.ofChars rest
    let ranges ← charRanges [] false bracketed.body
    if bracketed.isClosed then
      let set : ByteSet := ⟨ranges.flatMap byteRanges, bracketed.negated⟩
      return (draft.add (.byte set), bracketed.length)
    else return ({ draft.addChar '[' with plainBrackets := true }, 0)

/-- Reads a character between the character `prev` and others. Gives with the draft how
many of the others belong to it. -/
def read? (draft : Draft) (prev : Option Char) (c : Char) (rest : List Char) :
    Option (Draft × Nat) :=
  match c with
  | '?' => some (draft.add .one, 0)
  | '*' =>
    if rest.head? = some '*' then
      let (draft, taken) := draft.addStars prev rest.tail
      some (draft, taken + 1)
    else some (draft.add .run, 0)
  | '[' => draft.addBrackets? rest
  | '{' => some (draft.openGroup, 0)
  | '}' => draft.closeGroup?.map fun draft => (draft, 0)
  | ',' => some (draft.nextBranch, 0)
  | '\\' => rest.head?.map fun c => (draft.addChar c, 1)
  | c => some (draft.addChar c, 0)

/-- Reads all characters after `prev`, of which the first ones belong to what was read
before. All groups must be closed at the end. -/
def readAll? : (taken : Nat) → (prev : Option Char) → Draft → List Char → Option PathGlob
  | _, _, draft, [] => if draft.groups.isEmpty then some draft.pieces.reverse else none
  | taken + 1, _, draft, c :: rest => readAll? taken (some c) draft rest
  | 0, prev, draft, c :: rest => do
    let (draft, taken) ← draft.read? prev c rest
    readAll? taken (some c) draft rest

end Draft

/-- The glob that is written so, if it is one. -/
def ofChars? (chars : List Char) : Option PathGlob :=
  Draft.readAll? 0 none ⟨[], [], false⟩ chars

end ClassFile.PathGlob
