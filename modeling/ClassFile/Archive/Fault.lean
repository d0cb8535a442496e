import ClassFile.Archive.Inflate

/-!
# Faults of archives

What can be wrong with an archive as a whole or with the headers in it, and what can be
wrong with one of the files in it.
-/

namespace ClassFile

/-- Why an archive cannot be read. -/
inductive ArchiveFault where
  /-- It is shorter than a footer. -/
  | tooShort
  /-- It has no footer. -/
  | noFooter
  /-- It is one of several parts. -/
  | multiPart
  /-- There is no room for the wide footer. -/
  | noWideRoom
  /-- The wide footer is not where it is said to be, nor anywhere after that. -/
  | noWideFooter
  /-- The directory cannot be where the footer says. -/
  | directoryPlace
  /-- The directory is not made of entries. -/
  | directoryEntry
  /-- A file begins beyond any place. -/
  | filePlace
  /-- It ends inside a header. -/
  | truncated
  /-- A file is sealed, but nothing tells how. -/
  | unknownSeal
  /-- What tells how a file is sealed has a wrong size. -/
  | sealSize
  /-- A file is sealed in the way of another maker. -/
  | sealMaker
  /-- A file is sealed in a version that is not known. -/
  | sealVersion
  /-- A file is sealed with a strength that is not known. -/
  | sealStrength
  /-- A file has no header of its own. -/
  | fileHeader
  /-- A file is packed in a way that is not known here. -/
  | method
  /-- A file is encrypted. -/
  | encrypted
  deriving DecidableEq, Repr

/-- Says that an archive breaks a rule. -/
def ArchiveFault.invalid (rule : String) : String := "invalid Zip archive: " ++ rule

/-- Says that an archive asks for what is not done here. -/
def ArchiveFault.unsupported (what : String) : String := "unsupported Zip archive: " ++ what

/-- Why an archive cannot be read, in words. -/
def ArchiveFault.message : ArchiveFault → String
  | tooShort => invalid "Invalid zip header"
  | noFooter => invalid "Could not find central directory end"
  | multiPart => unsupported "Support for multi-disk files is not implemented"
  | noWideRoom => invalid "File cannot contain ZIP64 central directory end"
  | noWideFooter => invalid "Could not find ZIP64 central directory end"
  | directoryPlace => invalid "Invalid central directory size or offset"
  | directoryEntry => invalid "Invalid Central Directory header"
  | filePlace => invalid "Archive header is too large"
  | truncated => "failed to fill whole buffer: failed to fill whole buffer"
  | unknownSeal => invalid "AES encryption without AES extra data field"
  | sealSize => unsupported "AES extra data field has an unsupported length"
  | sealMaker => invalid "Invalid AES vendor"
  | sealVersion => invalid "Invalid AES vendor version"
  | sealStrength => invalid "Invalid AES encryption strength"
  | fileHeader => invalid "Invalid local file header"
  | method => unsupported "Compression method not supported"
  | encrypted => unsupported "Password required to decrypt file"

/-- Why a file in an archive cannot be unpacked. -/
inductive UnpackFault where
  /-- Its packed bytes stand for nothing. -/
  | packing (fault : Inflate.Fault)
  /-- It has another checksum than the directory says. -/
  | checksum
  deriving DecidableEq, Repr

/-- Why a file in an archive cannot be unpacked, in words. -/
def UnpackFault.message : UnpackFault → String
  | packing .incomplete => "incomplete deflate stream"
  | packing .corrupt => "corrupt deflate stream"
  | checksum => "Invalid checksum"

end ClassFile
