import ClassFile.Archive.Footer
import ClassFile.Text.Utf8

/-!
# The directory of an archive

For each file the directory tells the name, how it is packed and where it begins. What
the fixed fields of an entry have no room for is in further fields, each with a kind and
a length. Two kinds matter: wide numbers, in place of those that are given as the
greatest that fits, and the seal of a file whose packed bytes are encrypted.

Further fields that end too early are no fault; what they told until then is kept.
-/

namespace ClassFile.Archive

/-- What the directory tells about a file. -/
structure Entry where
  name : String
  encrypted : Bool
  /-- Whether it has a seal. -/
  isSealed : Bool
  method : Nat
  checksum : UInt32
  packedSize : Nat
  size : Nat
  /-- Where the file's own header begins. -/
  place : Nat
  deriving DecidableEq, Repr

/-! ### Names -/

/-- The upper half of the character set that names are written in unless they are marked
as UTF-8. -/
def upperHalf : List Char :=
  ("ÇüéâäàåçêëèïîìÄÅÉæÆôöòûùÿÖÜ¢£¥₧ƒáíóúñÑªº¿⌐¬½¼¡«»░▒▓│┤╡╢╖╕╣║╗╝╜╛┐└┴┬├─┼╞╟╚╔╩╦╠═╬╧╨╤╥╙╘╒╓" ++
    "╫╪┘┌█▄▌▐▀αßΓπΣσµτΦΘΩδ∞φε∩≡±≥≤⌠⌡÷≈°∙·√ⁿ²■\xa0").toList

/-- A character of that set. -/
def legacyChar (byte : UInt8) : Char :=
  if byte < 0x80 then Char.ofNat byte.toNat
  else upperHalf.getD (byte.toNat - 0x80) Utf8.replacement

/-! ### Further fields -/

/-- The wide form of a number, with the bytes after it. Only the greatest number of four
bytes has one, and for others no bytes are taken. -/
def wideNumber? (number : Nat) (bytes : Bytes) : Option (Nat × Bytes) :=
  if number ≠ 0xFFFFFFFF then some (number, bytes)
  else if bytes.hasAtLeast 8 then some (fieldAt bytes 0 8, bytes.drop 8)
  else none

/-- An entry with its wide numbers, and the bytes after them unless they end too early. -/
def Entry.withWideNumbers (entry : Entry) (bytes : Bytes) : Entry × Option Bytes :=
  match wideNumber? entry.size bytes with
  | none => (entry, none)
  | some (size, bytes) =>
    let entry := { entry with size }
    match wideNumber? entry.packedSize bytes with
    | none => (entry, none)
    | some (packedSize, bytes) =>
      let entry := { entry with packedSize }
      match wideNumber? entry.place bytes with
      | none => (entry, none)
      | some (place, bytes) => ({ entry with place }, some bytes)

/-- The method of a file that has a seal. The seal tells the method used before. -/
def sealedMethod : Nat := 99

/-- The size of a seal. -/
def sealSize : Nat := 7

/-- An entry with a seal, unless the seal ends too early. -/
def Entry.withSeal (entry : Entry) (fieldSize : Nat) (bytes : Bytes) :
    Except ArchiveFault (Option Entry) := do
  if fieldSize ≠ sealSize then throw .sealSize
  unless bytes.hasAtLeast sealSize do return none
  if fieldAt bytes 2 2 ≠ 0x4541 then throw .sealMaker
  unless [1, 2].contains (fieldAt bytes 0 2) do throw .sealVersion
  unless [1, 2, 3].contains (fieldAt bytes 4 1) do throw .sealStrength
  return some { entry with isSealed := true, method := fieldAt bytes 5 2 }

/-- What further fields tell about an entry. A field that takes more bytes than its length
moves the next one on, and behind a seal its length is passed over once more. -/
def Entry.further (entry : Entry) (fields : Bytes) : Except ArchiveFault Entry := do
  if fields.hasAtLeast 4 then
    let fieldSize := fieldAt fields 2 2
    let bytes : Bytes := fields.drop 4
    match fieldAt fields 0 2 with
    | 0x0001 =>
      match entry.withWideNumbers bytes with
      | (entry, none) => return entry
      | (entry, some rest) =>
        further entry (bytes.drop (max fieldSize (bytes.length - rest.length)))
    | 0x9901 =>
      match ← entry.withSeal fieldSize bytes with
      | none => return entry
      | some entry => further entry (bytes.drop (sealSize + fieldSize))
    | _ => further entry (bytes.drop fieldSize)
  else return entry
termination_by fields.length
decreasing_by
  all_goals
    have := Bytes.hasAtLeast_iff.mp ‹_›
    simp only [List.length_drop]
    omega

/-! ### Entries -/

/-- The first bytes of an entry of the directory. -/
def entryMark : Bytes := [0x50, 0x4B, 0x01, 0x02]

/-- The size of the fixed fields of an entry. -/
def entrySize : Nat := 46

/-- The entry at the start of some bytes, with the bytes after it, if `before` bytes stand
in front of the archive. -/
def entry (before : Nat) (bytes : Bytes) : Except ArchiveFault (Entry × Bytes) := do
  unless bytes.hasAtLeast 4 do throw .truncated
  unless entryMark.isPrefixOf bytes do throw .directoryEntry
  let number := fieldAt bytes
  let nameSize := number 28 2
  let furtherSize := number 30 2
  let size := entrySize + nameSize + furtherSize + number 32 2
  unless bytes.hasAtLeast size do throw .truncated
  let flags := number 8 2
  let name := (bytes.drop entrySize).take nameSize
  let fixed : Entry := {
    name := if flags.testBit 11 then Utf8.decode name else String.ofList (name.map legacyChar)
    encrypted := flags.testBit 0
    isSealed := false
    method := number 10 2
    checksum := UInt32.ofNat (number 16 4)
    packedSize := number 20 4
    size := number 24 4
    place := number 42 4 }
  let entry ← fixed.further ((bytes.drop (entrySize + nameSize)).take furtherSize)
  if entry.method = sealedMethod ∧ !entry.isSealed then throw .unknownSeal
  let place := entry.place + before
  if placeBound ≤ place then throw .filePlace
  return ({ entry with place }, bytes.drop size)

/-- So many entries of a directory. -/
def entries (before : Nat) : (count : Nat) → Bytes → Except ArchiveFault (List Entry)
  | 0, _ => return []
  | count + 1, bytes => do
    let (first, rest) ← entry before bytes
    return first :: (← entries before count rest)

/-- What the directory of an archive tells, in its order. -/
def directory (archive : Bytes) : Except ArchiveFault (List Entry) := do
  let extent ← extent archive
  entries extent.before extent.count (archive.drop extent.start)

end ClassFile.Archive
