import ClassFile.Archive.Checksum
import ClassFile.Archive.Entry

/-!
# Archives

An archive holds files, packed one by one, with a directory at the end. In front of the
packed bytes of a file the archive has a second header, of which only the lengths matter.
-/

namespace ClassFile.Archive

/-- The first bytes of a file's own header. -/
def fileMark : Bytes := [0x50, 0x4B, 0x03, 0x04]

/-- The method of a file that is stored as it is. -/
def storedMethod : Nat := 0

/-- The method of a file that is deflated. -/
def deflatedMethod : Nat := 8

/-- The packed bytes of a file, as far as they are there. -/
def packed (archive : Bytes) (entry : Entry) : Except ArchiveFault Bytes := do
  if entry.encrypted then throw .encrypted
  let header : Bytes := archive.drop entry.place
  unless header.hasAtLeast 4 do throw .truncated
  unless fileMark.isPrefixOf header do throw .fileHeader
  unless header.hasAtLeast 30 do throw .truncated
  let start := 30 + fieldAt header 26 2 + fieldAt header 28 2
  unless [storedMethod, deflatedMethod].contains entry.method do throw .method
  if entry.isSealed then throw .encrypted
  return (header.drop start).take entry.packedSize

/-- Unpacks the bytes of a file. -/
def unpack (entry : Entry) (packed : Bytes) : Except UnpackFault Bytes := do
  let bytes ←
    if entry.method = storedMethod then pure packed
    else (Inflate.inflate packed).mapError UnpackFault.packing
  if Checksum.ofBytes bytes = entry.checksum then return bytes else throw .checksum

end ClassFile.Archive
