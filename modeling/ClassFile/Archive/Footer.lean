import ClassFile.Archive.Fault

/-!
# The footer of an archive

An archive ends in a footer that tells where its directory is, and in a comment of a
length that the footer gives. Numbers that are too great for the footer are in a second,
wide footer before it; a locator between the two tells where the wide one begins.

Bytes may stand in front of an archive, and all places in it are counted from behind
them. How many there are is the difference between where something is and where the
archive says it is: the directory, which ends where the footer begins, or the wide
footer, which is looked for from the place that the locator gives onwards.
-/

namespace ClassFile.Archive

/-- The number in a field of a header, the least byte first. -/
def fieldAt (header : Bytes) (offset width : Nat) : Nat :=
  Bytes.littleEndian ((header.drop offset).take width)

/-- Places in a file are smaller than this. -/
def placeBound : Nat := UInt64.size

/-- What the footer tells. -/
structure Footer where
  /-- Where the footer itself begins. -/
  place : Nat
  commentSize : Nat
  part : Nat
  directoryPart : Nat
  /-- How many files this part of the archive has. -/
  count : Nat
  /-- How many files all parts have. -/
  totalCount : Nat
  directorySize : Nat
  directoryPlace : Nat
  deriving DecidableEq, Repr

/-- Where the directory of an archive is, in the file that the archive is in. -/
structure Extent where
  /-- How many bytes stand in front of the archive. -/
  before : Nat
  /-- Where the directory begins. -/
  start : Nat
  /-- How many entries it has. -/
  count : Nat
  deriving DecidableEq, Repr

/-! ### The footer -/

/-- The first bytes of a footer. -/
def footerMark : Bytes := [0x50, 0x4B, 0x05, 0x06]

/-- The size of a footer without its comment. -/
def footerSize : Nat := 22

/-- Where the last footer begins. -/
def lastFooter : (offset : Nat) → (last : Option Nat) → Bytes → Option Nat
  | _, last, [] => last
  | offset, last, byte :: rest =>
    let bytes : Bytes := byte :: rest
    let found := footerMark.isPrefixOf bytes && bytes.hasAtLeast footerSize
    lastFooter (offset + 1) (if found then some offset else last) rest

/-- The footer of an archive. It begins no farther from the end than the longest comment
allows. -/
def footer (archive : Bytes) : Except ArchiveFault Footer := do
  let size := archive.length
  if size < footerSize then throw .tooShort
  match lastFooter 0 none archive with
  | none => throw .noFooter
  | some place =>
    if place + footerSize + 0xFFFF < size then throw .noFooter
    let header : Bytes := archive.drop place
    let number := fieldAt header
    let commentSize := number 20 2
    unless header.hasAtLeast (footerSize + commentSize) do throw .truncated
    return {
      place
      commentSize
      part := number 4 2
      directoryPart := number 6 2
      count := number 8 2
      totalCount := number 10 2
      directorySize := number 12 4
      directoryPlace := number 16 4 }

/-- Whether a number in a footer is the greatest that fits. It stands for a number that
does not fit. -/
def Footer.isExceeded (footer : Footer) : Bool :=
  [footer.part, footer.directoryPart, footer.count, footer.totalCount].contains 0xFFFF ||
    [footer.directorySize, footer.directoryPlace].contains 0xFFFFFFFF

/-! ### The wide footer -/

/-- The first bytes of a locator. -/
def locatorMark : Bytes := [0x50, 0x4B, 0x06, 0x07]

/-- The size of a locator. -/
def locatorSize : Nat := 20

/-- What the locator tells about the wide footer. -/
structure Locator where
  part : Nat
  place : Nat
  deriving DecidableEq, Repr

/-- The locator of an archive, if there is one as far from the end as the footer and its
comment need. -/
def locator? (archive : Bytes) (footer : Footer) : Option Locator :=
  let size := archive.length
  let behind := locatorSize + footerSize + footer.commentSize
  let header : Bytes := archive.drop (size - behind)
  if behind ≤ size ∧ locatorMark.isPrefixOf header then
    some ⟨fieldAt header 4 4, fieldAt header 8 8⟩
  else none

/-- The first bytes of a wide footer. -/
def wideMark : Bytes := [0x50, 0x4B, 0x06, 0x06]

/-- How far from a footer the wide one begins at least. -/
def wideDistance : Nat := 60

/-- The bytes from the first wide footer on that begins in one of so many places, with the
number of bytes that stand before it. -/
def findWide : (places passed : Nat) → Bytes → Option (Nat × Bytes)
  | 0, _, _ => none
  | _ + 1, _, [] => none
  | places + 1, passed, byte :: rest =>
    if wideMark.isPrefixOf (byte :: rest) then some (passed, byte :: rest)
    else findWide places (passed + 1) rest

/-- Where the directory is according to the wide footer. -/
def wideExtent (archive : Bytes) (footer : Footer) (locator : Locator) :
    Except ArchiveFault Extent := do
  if !footer.isExceeded && footer.part ≠ locator.part then throw .multiPart
  if footer.place < wideDistance then throw .noWideRoom
  let places := footer.place - wideDistance + 1 - locator.place
  let some (before, header) := findWide places 0 (archive.drop locator.place)
    | throw .noWideFooter
  if fieldAt header 16 4 ≠ fieldAt header 20 4 then throw .multiPart
  let start := fieldAt header 48 8 + before
  if placeBound ≤ start then throw .directoryPlace
  return ⟨before, start, fieldAt header 32 8⟩

/-! ### The directory -/

/-- Where the directory is if there is no wide footer. -/
def narrowExtent (footer : Footer) : Except ArchiveFault Extent := do
  let covered := footer.directorySize + footer.directoryPlace
  if footer.place < covered then throw .directoryPlace
  let before := footer.place - covered
  return ⟨before, footer.directoryPlace + before, footer.count⟩

/-- Where the directory of an archive is. -/
def extent (archive : Bytes) : Except ArchiveFault Extent := do
  let footer ← footer archive
  if !footer.isExceeded && footer.part ≠ footer.directoryPart then throw .multiPart
  match locator? archive footer with
  | some locator => wideExtent archive footer locator
  | none => narrowExtent footer

end ClassFile.Archive
