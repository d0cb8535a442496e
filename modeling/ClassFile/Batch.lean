import ClassFile.Catalog
import ClassFile.Digest
import ClassFile.Session

/-!
# Batches

Many class files decoded one by one. A file that cannot be decoded is a failure of its
own and stops nothing. All decodings hand out packages from one table.
-/

namespace ClassFile

namespace Batch

/-- The bytes of a class file, and where they came from. -/
structure Source where
  name : String
  bytes : Bytes
  deriving DecidableEq, Repr

/-- A class file that was decoded. -/
structure Parsed where
  source : String
  digest : Digest
  record : Record

/-- Something that could not be read or decoded, and why. -/
structure Failure where
  source : String
  message : String
  deriving DecidableEq, Repr

end Batch

/-- What came of the files of a batch. -/
structure Batch where
  classes : List Batch.Parsed
  failures : List Batch.Failure

namespace Batch

/-- Nothing was read yet. -/
def empty : Batch := ⟨[], []⟩

/-- Decodes class files in order. -/
def decodeAll (options : Options) : List Source → Session → Batch
  | [], _ => empty
  | source :: rest, session =>
    let (outcome, session) := session.decode options source.bytes
    let batch := decodeAll options rest session
    match outcome with
    | .ok record =>
      { batch with classes := ⟨source.name, .ofBytes source.bytes, record⟩ :: batch.classes }
    | .error fault =>
      { batch with failures := ⟨source.name, fault.message⟩ :: batch.failures }

/-- The classes of a batch by their names. -/
def catalog (batch : Batch) : Catalog :=
  batch.classes.foldl (fun catalog parsed => (catalog.insert parsed.source parsed.record).2)
    .empty

end Batch

end ClassFile
