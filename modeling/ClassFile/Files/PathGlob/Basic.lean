import ClassFile.Bytes

/-!
# Globs for paths

A glob for paths is a sequence of pieces. Pieces stand for byte strings rather than for
texts, so that a piece for one byte does not match a character of several. Most pieces
keep within a name of the path; those that two stars make reach over slashes.

What a piece does is said by where it can end (`Piece.ends`): given a mark at each place
of the path where the piece may begin, it tells the places where it may end. A glob
passes on the marks from piece to piece, and a choice joins those of its branches, so
the work is the size of the glob for each byte of the path, whatever the glob is.
-/

namespace ClassFile

/-- A set of bytes: those in some ranges, or those in none of them. -/
structure ByteSet where
  ranges : List (UInt8 × UInt8)
  negated : Bool
  deriving DecidableEq, Repr

namespace ByteSet

/-- The set of one byte. -/
def single (byte : UInt8) : ByteSet := ⟨[(byte, byte)], false⟩

/-- All bytes but one. -/
def without (byte : UInt8) : ByteSet := ⟨[(byte, byte)], true⟩

/-- All bytes. -/
def all : ByteSet := ⟨[], true⟩

/-- Whether a byte is in a set. -/
def contains (set : ByteSet) (byte : UInt8) : Bool :=
  (set.ranges.any fun (least, greatest) => least ≤ byte && byte ≤ greatest) != set.negated

end ByteSet

namespace PathGlob

/-- The byte that separates the names of a path. -/
def slash : UInt8 := 0x2F

/-- One piece of a glob for paths. -/
inductive Piece where
  /-- One byte of a set. -/
  | byte (set : ByteSet)
  /-- Any run of bytes within a name. -/
  | run
  /-- Nothing, or all up to the beginning of a name. -/
  | leading
  /-- A slash, or two with anything between them. -/
  | inner
  /-- A slash and all that is below. -/
  | beneath
  /-- What one of the branches stands for, or nothing if there are none. -/
  | choice (branches : List (List Piece))
  deriving Repr

/-- The piece for one byte of a name. -/
def Piece.one : Piece := .byte (.without slash)

/-- The choice between branches. Those that say nothing do not count. -/
def Piece.ofBranches (branches : List (List Piece)) : Piece :=
  .choice (branches.filter fun branch => branch.any fun
    | .choice [] => false
    | _ => true)

/-! ### Marks -/

/-- Marks at the places of a path: one in front of each byte, and one at the end. -/
abbrev Marks := List Bool

namespace Marks

/-- No mark at any place of a path. -/
def nowhere (path : Bytes) : Marks := false :: path.map fun _ => false

/-- A mark at the start of a path only. -/
def atStart (path : Bytes) : Marks := true :: path.map fun _ => false

/-- The marks that are in one of two. -/
def join (marks others : Marks) : Marks := List.zipWith (· || ·) marks others

/-- Moves each mark over one byte of a set. -/
def past (set : ByteSet) (path : Bytes) (marks : Marks) : Marks :=
  false :: List.zipWith (fun byte mark => mark && set.contains byte) path marks

/-- Spreads marks over any number of bytes of a set. `reached` tells whether the place has
been reached from the one before it. -/
def along (set : ByteSet) (reached : Bool) : Bytes → Marks → Marks
  | [], marks => [reached || marks.headD false]
  | byte :: path, marks =>
    let mark := reached || marks.headD false
    mark :: along set (mark && set.contains byte) path marks.tail

/-- Moves each mark over a slash. -/
def pastSlash (path : Bytes) (marks : Marks) : Marks := marks.past (.single slash) path

/-- Spreads marks over all that follows. -/
def onward (path : Bytes) (marks : Marks) : Marks := along .all false path marks

end Marks

/-! ### Matching -/

mutual

/-- Where a piece may end if it may begin where the marks are. -/
def Piece.ends (path : Bytes) (marks : Marks) : Piece → Marks
  | .byte set => marks.past set path
  | .run => marks.along (.without slash) false path
  | .leading => marks.join ((marks.onward path).pastSlash path)
  | .inner =>
    let beyond := marks.pastSlash path
    beyond.join ((beyond.onward path).pastSlash path)
  | .beneath => (marks.pastSlash path).onward path
  | .choice branches => if branches.isEmpty then marks else branchEnds path marks branches

/-- Where pieces one after the other may end. -/
def pieceEnds (path : Bytes) (marks : Marks) : List Piece → Marks
  | [] => marks
  | piece :: pieces => pieceEnds path (piece.ends path marks) pieces

/-- Where one of several branches may end. -/
def branchEnds (path : Bytes) (marks : Marks) : List (List Piece) → Marks
  | [] => .nowhere path
  | branch :: branches => (pieceEnds path marks branch).join (branchEnds path marks branches)

end

end PathGlob

/-- A glob for paths, piece by piece. -/
abbrev PathGlob := List PathGlob.Piece

/-- Whether a glob stands for a path. One that only leads to the beginning of some name
stands for all of them. -/
def PathGlob.accepts (glob : PathGlob) (path : Bytes) : Bool :=
  match glob with
  | [.leading] => true
  | _ => (pieceEnds path (.atStart path) glob).getLast?.getD false

end ClassFile
