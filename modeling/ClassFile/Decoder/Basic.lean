import ClassFile.Bytecode.Walk
import ClassFile.Event
import ClassFile.Pool.Reading

/-!
# The state of a decoding

A decoding reads one class file from front to back. `Decoder` is where it stands: the
bytes that are left, the pool, what was collected, the record as far as it is known,
and the member whose attributes are being read.

Several decodings may be under way at once, each started by the listener of the one
before. They share a `Session`: the table from which packages are handed out, the
number of decodings under way, and the pools that finished ones left behind. A
decoding reads nothing of the session but the package table, and a listener can act on
nothing else, so what happens inside another decoding cannot disturb this one.

What was collected stays separate from the notes of what the listener was told. That
the two agree is a fact about the handlers, and not a matter of definition.
-/

namespace ClassFile

/-- What decodings share. -/
structure Session where
  table : PackageTable := {}
  /-- How many decodings are under way. -/
  depth : Nat := 0
  /-- Pools that finished decodings left to be used again, the latest first. -/
  spare : List Pool := []
  deriving DecidableEq, Repr

/-- Someone who is told what a decoding meets. -/
structure Listener where
  /-- What the listener does when it is told of an event, after the notes so far: it may
  act on the session and add to its notes. -/
  hears : Array Note → Event → Session → Session × List Note
  /-- Whether a class, of which the header is known, is to be decoded further, after the
  notes so far. -/
  admits : Array Note → Record → Session → Bool

/-- A listener that does nothing and admits every class. -/
def Listener.passive : Listener where
  hears _ _ session := (session, [])
  admits _ _ _ := true

/-- What stays the same throughout a decoding. -/
structure Context where
  namer : Namer
  listener : Option Listener

/-- The kind of member that attributes are read for. It is the last of its kind. -/
inductive LastMember where
  | field
  | method
  deriving DecidableEq, Repr

/-- Where a decoding stands. -/
structure Decoder where
  input : Input
  pool : Pool
  session : Session
  /-- The types referred to so far. -/
  references : TypeSet := ∅
  /-- Their packages. -/
  imports : PackageSet := ∅
  /-- The packages exposed so far, once the class is known to be public. -/
  api : Option PackageSet := none
  /-- What is known of the class, once the header is read. -/
  record : Option Record := none
  last : Option LastMember := none
  /-- Whether method bodies are walked through. -/
  walking : Bool
  targets : Targets := {}
  notes : Array Note := #[]

/-- A step of a decoding. What it did before it failed is kept. -/
abbrev Decode (α : Type) := EStateM Fault Decoder α

namespace Decode

variable {α : Type}

/-- Reads from the front of the input. -/
def read (reader : Reader α) : Decode α := fun s =>
  match reader s.input with
  | .ok value input => .ok value { s with input }
  | .error fault input => .error fault { s with input }

/-- An unsigned number of two bytes. -/
def u2 : Decode UInt16 := read Input.u2

/-- A number of things that follow, in two bytes. -/
def count : Decode Nat := return (← u2).toNat

/-- Asks the pool. -/
def ask (question : Pool → Except Fault α) : Decode α := fun s =>
  match question s.pool with
  | .ok value => .ok value s
  | .error fault => .error fault s

/-- The text at an index of the pool. -/
def utf8 (index : UInt16) : Decode String := ask (·.utf8 index)

/-- The class at an index of the pool. -/
def classAt (index : UInt16) : Decode TypeName :=
  return .ofText (← ask (·.className index))

/-- Reads other bytes than the rest of the input, from their start, and goes back to the
input afterwards. -/
def within (bytes : Bytes) (body : Decode α) : Decode α := fun s =>
  match body { s with input := .ofBytes bytes } with
  | .ok value t => .ok value { t with input := s.input }
  | .error fault t => .error fault { t with input := s.input }

/-- The same step a number of times. -/
def repeated : (n : Nat) → Decode Unit → Decode Unit
  | 0, _ => pure ()
  | n + 1, step => do
    step
    repeated n step

/-- A number of values, each by the same step. -/
def listOf : (n : Nat) → Decode α → Decode (List α)
  | 0, _ => pure []
  | n + 1, step => do
    let head ← step
    return head :: (← listOf n step)

/-- A step, and whatever comes of it, another one that cannot fail. -/
def ending (body : Decode α) (finish : Decoder → Decoder) : Decode α := fun s =>
  match body s with
  | .ok value t => .ok value (finish t)
  | .error fault t => .error fault (finish t)

/-- What is known of the class. -/
def record : Decode Record := do
  match (← get).record with
  | some record => return record
  | none => throw .noHeader

/-- Adds to what is known of the class. -/
def updateRecord (f : Record → Record) : Decode Unit := do
  let record ← record
  modify fun s => { s with record := some (f record) }

end Decode

namespace Record

/-- Changes the last field or the last method. -/
def updateLast (last : LastMember) (f : Member → Member) (record : Record) : Record :=
  match last with
  | .field => { record with fields := record.fields.modify (record.fields.size - 1) f }
  | .method => { record with methods := record.methods.modify (record.methods.size - 1) f }

end Record

namespace Decode

/-- Changes the member that attributes are read for, if there is one. -/
def updateMember (f : Member → Member) : Decode Unit :=
  modify fun s =>
    match s.last with
    | some last => { s with record := s.record.map (·.updateLast last f) }
    | none => s

end Decode

/-- What becomes of a decoding when its listener, if it has one, is told of an event. -/
def Decoder.told (context : Context) (event : Event) (s : Decoder) : Decoder :=
  match context.listener with
  | none => s
  | some listener =>
    let (session, further) := listener.hears s.notes event s.session
    { s with session, notes := s.notes.push (.told event) ++ further.toArray }

namespace Decode

/-- Tells the listener, if there is one, of an event. -/
def tell (context : Context) (event : Event) : Decode Unit :=
  modify (Decoder.told context event)

/-- The package of a type. -/
def packageOf (context : Context) (type : TypeName) : Decode Package :=
  modifyGet fun s =>
    let (package, table) := context.namer.packageOf type s.session.table
    (package, { s with session := { s.session with table } })

end Decode

end ClassFile
