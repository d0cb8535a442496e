import ClassFile.Batch

/-!
# The files of a batch in any order

The files of a batch may be decoded in any order, and side by side. Each decoding has a session of
its own, but all of them ask one namer, which remembers in its table what it was asked before. Of
the others a decoding can notice nothing but that the table has changed between two of its requests
(`ClassFile.Namer.Amid`).

What comes of a file is put down in its place. When all decodings are done, the classes and the
failures are told apart, in the order of the places (`ClassFile.Batch.Schedule.run`).
`ClassFile.Batch.alone` is what comes of the files when each of them is decoded by itself.
-/

namespace ClassFile

/-- What a namer is to a decoding while others ask it for packages too: it answers every request as
it would answer it with some table. -/
def Namer.Amid (namer view : Namer) : Prop :=
  ∀ type table, ∃ found, (view.packageOf type table).1 = (namer.packageOf type found).1

namespace Batch

/-- What comes of a file. -/
abbrev Outcome := Parsed ⊕ Failure

/-- The entry for a decoded file, or for the fault. -/
def Source.entry (source : Source) : Except Fault Record → Outcome
  | .ok record => .inl ⟨source.name, .ofBytes source.bytes, record⟩
  | .error fault => .inr ⟨source.name, fault.message⟩

/-- The classes and the failures among some entries. -/
def ofEntries (entries : List Outcome) : Batch where
  classes := entries.filterMap Sum.getLeft?
  failures := entries.filterMap Sum.getRight?

/-- What comes of a file that is decoded by itself. -/
def Source.alone (options : Options) (source : Source) : Outcome :=
  source.entry (Session.decode options source.bytes {}).1

/-- What comes of files each of which is decoded by itself. -/
def alone (options : Options) (sources : List Source) : Batch :=
  ofEntries (sources.map (Source.alone options))

/-- One of the decodings: the file that is decoded, and what the namer is to it. -/
structure Turn (namer : Namer) (size : Nat) where
  place : Fin size
  view : Namer
  amid : namer.Amid view

/-- An order of decodings, one for each file. -/
structure Schedule (namer : Namer) (size : Nat) where
  turns : List (Turn namer size)
  perm : (turns.map Turn.place).Perm (List.finRange size)

/-- What the decodings share, and what has come of them so far. -/
structure Progress (size : Nat) where
  table : PackageTable
  entries : Fin size → Option Outcome

variable (options : Options) (sources : List Source)

/-- A file is decoded, and what comes of it is put down in its place. -/
def Progress.after (progress : Progress sources.length)
    (turn : Turn options.namer sources.length) : Progress sources.length :=
  let source := sources[turn.place]
  let decoded :=
    Session.decode { options with namer := turn.view } source.bytes { table := progress.table }
  { table := decoded.2.table
    entries := fun place =>
      if place = turn.place then some (source.entry decoded.1) else progress.entries place }

/-- All files are decoded in this order. -/
def Schedule.run (schedule : Schedule options.namer sources.length) (table : PackageTable) :
    Batch :=
  let progress := schedule.turns.foldl (Progress.after options sources) ⟨table, fun _ => none⟩
  ofEntries ((List.finRange sources.length).filterMap progress.entries)

end Batch

end ClassFile
