import ClassFile.Decoder.Class

/-!
# Sessions

A session is what is shared by the decodings that one owner starts, one after the other
or one inside the other. A decoding that begins takes a pool that is to spare and counts
as under way; one that ends gives an emptied pool back, and with the last one the pools
to spare are dropped.

`Session.chain` is the plainest nesting: a listener that decodes the rest of a list of
class files when it is told of the start of the first.
-/

namespace ClassFile

/-- How decodings are done. -/
structure Options where
  namer : Namer := .shared
  /-- Whether a listener has every method body walked through, so that it is told of all
  calls. -/
  walkForListener : Bool := true

/-- What comes of a decoding. -/
structure Run where
  /-- The record, or none if the listener did not admit the class. -/
  outcome : Except Fault (Option Record)
  /-- What the listener was told, with its own notes. -/
  notes : List Note
  /-- The session afterwards. -/
  session : Session

namespace Session

/-- A decoding begins: a pool for it, and the session while it is under way. -/
def enter (session : Session) : Pool × Session :=
  let pool := session.spare.head?.getD .empty
  (pool, { session with depth := session.depth + 1, spare := session.spare.tail })

/-- A decoding ends, and gives back its pool. -/
def leave (session : Session) (pool : Pool) : Session :=
  let depth := session.depth - 1
  { session with
    depth
    spare := if depth = 0 then [] else pool.cleared :: session.spare }

/-- A decoding that has not begun. -/
def decoder (options : Options) (listener : Option Listener) (bytes : Bytes)
    (session : Session) : Decoder where
  input := .ofBytes bytes
  pool := session.enter.1
  session := session.enter.2
  walking := options.walkForListener && listener.isSome

/-- Decodes a class file, with or without a listener. -/
def run (options : Options) (listener : Option Listener) (bytes : Bytes) (session : Session) :
    Run :=
  let context : Context := ⟨options.namer, listener⟩
  match Decode.classFile context (session.decoder options listener bytes) with
  | .ok record s => ⟨.ok record, s.notes.toList, s.session.leave s.pool⟩
  | .error fault s => ⟨.error fault, s.notes.toList, s.session.leave s.pool⟩

/-- How many bytes of a class file are read, whether or not it can be decoded. -/
def consumed (options : Options) (listener : Option Listener) (bytes : Bytes)
    (session : Session) : Nat :=
  let context : Context := ⟨options.namer, listener⟩
  match Decode.classFile context (session.decoder options listener bytes) with
  | .ok _ s => s.input.offset
  | .error _ s => s.input.offset

/-- Decodes a class file for its record. -/
def decode (options : Options) (bytes : Bytes) (session : Session) :
    Except Fault Record × Session :=
  let run := session.run options none bytes
  let record := match run.outcome with
    | .ok (some record) => .ok record
    | .ok none => .error .stopped
    | .error fault => .error fault
  (record, run.session)

/-- Decodes a class file for the types that it refers to. -/
def references (options : Options) (bytes : Bytes) (session : Session) :
    Except Fault TypeSet × Session :=
  let (record, session) := session.decode options bytes
  (record.map Record.references, session)

/-- Decodes the first of a list of class files with a listener that decodes the others,
in the same way, when the first one starts. A class is admitted unless the number of
decodings under way is among the given ones. Nothing comes of an empty list. -/
def chain (options : Options) (refused : List Nat) :
    (files : List Bytes) → Session → Option Run
  | [], _ => none
  | bytes :: rest, session =>
    let listener : Listener :=
      { hears := fun _ event session =>
          match event with
          | .classStart _ =>
            match chain options refused rest session with
            | some inner =>
              (inner.session, [.ran inner.notes inner.outcome inner.session.depth])
            | none => (session, [])
          | _ => (session, [])
        admits := fun _ _ session => !refused.contains session.depth }
    some (session.run options (some listener) bytes)

end Session

/-- Decodes a class file by itself. -/
def decode (bytes : Bytes) : Except Fault Record :=
  (Session.decode {} bytes {}).1

end ClassFile
