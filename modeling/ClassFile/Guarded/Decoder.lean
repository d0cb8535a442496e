import ClassFile.Decoder.Class
import ClassFile.Guarded.Signature

/-!
# Bytes and slots with bounds

The parts of a decoder that index into memory, as guarded steps: a cursor takes bytes
between two positions of a file, a text is decoded byte by byte, a pool is filled and gone
through by slot numbers, and a package is cut out of the name of a type.
-/

namespace ClassFile

/-- A number that fits into 64 bits. -/
def word? (n : Nat) : Option Nat := if n < UInt64.size then some n else none

/-! ### Cursors -/

/-- A position in bytes. -/
structure Cursor where
  data : Bytes
  pos : Nat

namespace Cursor

/-- The bytes from the position on. -/
def input (cursor : Cursor) : Input := ⟨cursor.pos, cursor.data.drop cursor.pos⟩

/-- The bytes between two positions. -/
def slice? (data : Bytes) (start stop : Nat) : Option Bytes :=
  if start ≤ stop ∧ stop ≤ data.length then some ((data.drop start).take (stop - start)) else none

/-- Where the cursor stands after a number of bytes. An end that is no number of 64 bits is
beyond the end of the data. -/
def stop? (cursor : Cursor) (n : Nat) : Option Nat :=
  (word? (cursor.pos + n)).filter (· ≤ cursor.data.length)

/-- Takes the bytes up to a position and advances to it. -/
def takeUpTo (cursor : Cursor) (n : Nat) : Option Nat → Guarded Fault Cursor Bytes
  | some stop => do
    let bytes ← Guarded.expect (slice? cursor.data cursor.pos stop)
    set { cursor with pos := stop }
    return bytes
  | none => throw (.endOfInput cursor.pos n)

/-- Takes bytes and advances. -/
def take (n : Nat) : Guarded Fault Cursor Bytes := do
  let cursor ← get
  takeUpTo cursor n (cursor.stop? n)

/-- Takes a number of bytes and looks at each of them. -/
def number (width : Nat) : Guarded Fault Cursor Nat := do
  let bytes ← take width
  let digits ← (List.range width).mapM fun i => Guarded.expect bytes[i]?
  return Bytes.number digits

/-- Passes over bytes. -/
def skip (n : Nat) : Guarded Fault Cursor Unit := do
  let _ ← take n

/-- An unsigned number of one byte. -/
def u1 : Guarded Fault Cursor UInt8 := return UInt8.ofNat (← number 1)

/-- An unsigned number of two bytes. -/
def u2 : Guarded Fault Cursor UInt16 := return UInt16.ofNat (← number 2)

/-- An unsigned number of four bytes. -/
def u4 : Guarded Fault Cursor UInt32 := return UInt32.ofNat (← number 4)

/-- A signed number of four bytes. -/
def i4 : Guarded Fault Cursor Int32 := return (← u4).toInt32

/-- An unsigned number of eight bytes. -/
def u8 : Guarded Fault Cursor UInt64 := return UInt64.ofNat (← number 8)

end Cursor

/-! ### Slots of the pool -/

namespace Pool

open Filling

/-- Puts an entry into a slot that must be there. -/
def storeGuarded (slot : Nat) (entry : Entry) : Guarded Fault Filling Unit := fun state =>
  if slot < state.pool.size then Guarded.sound (store slot entry) state else none

/-- Fills the slots from `slot` on, up to `count`. -/
def fillGuarded (count slot : Nat) : Guarded Fault Filling Unit := do
  if slot < count then
    let tag ← Guarded.sound (field Input.u1)
    if tag = 0 then return
    else
      let entry ← Guarded.sound (field (Entry.read tag slot))
      storeGuarded slot entry
      fillGuarded count (slot + entry.width)
  else return
termination_by count - slot
decreasing_by
  have := entry.width_pos
  omega

/-- Reads a pool from its count on. -/
def readGuarded : Guarded Fault Filling Unit := do
  let count ← Guarded.sound (field Input.u2)
  if count = 0 then throw .emptyPool
  else
    modify fun state => { state with pool := ⟨Array.replicate count.toNat .unused⟩ }
    fillGuarded count.toNat 1

end Pool

namespace Decode

variable (context : Context)

/-- Refers to what the entry in a slot names. The slot must be there. -/
def referEntryGuarded (slot : Nat) : Guarded Fault Decoder Unit := fun s =>
  if slot < s.pool.size then Guarded.sound (referEntry context slot) s else none

/-- Goes through the pool for references, up to the number of slots at the start. -/
def referPoolGuarded : Guarded Fault Decoder Unit := do
  let s ← get
  ((List.range s.pool.size).drop 1).forM (referEntryGuarded context)

end Decode

/-! ### Texts -/

/-- The units of a text, by position. -/
def ModifiedUtf8.unitsFrom (bytes : Bytes) (pos : Nat) : Guarded TextFault Unit (List UInt16) := do
  if pos < bytes.length then
    let a ← Guarded.expect bytes[pos]?
    if a &&& 0x80 = 0 then
      return a.toUInt16 :: (← unitsFrom bytes (pos + 1))
    else if a &&& 0xE0 = 0xC0 then
      match bytes[pos + 1]? with
      | none => throw .truncatedPair
      | some b =>
        if isContinuation b then return pairUnit a b :: (← unitsFrom bytes (pos + 2))
        else throw .malformedPair
    else if a &&& 0xF0 = 0xE0 then
      match bytes[pos + 1]?, bytes[pos + 2]? with
      | some b, some c =>
        if isContinuation b && isContinuation c then
          return tripleUnit a b c :: (← unitsFrom bytes (pos + 3))
        else throw .malformedTriple
      | _, _ => throw .truncatedTriple
    else throw (.badLead a)
  else return []
termination_by bytes.length - pos

/-! ### Names -/

/-- The position at which a character last stands. -/
def Signature.rfind? (c : Char) (chars : List Char) : Option Nat :=
  if c ∈ chars then
    some (utf8 ((chars.reverse.dropWhile (· ≠ c)).tail.reverse)).length
  else none

/-- The package of a type, cut out of the name of its element. -/
def Package.ofTypeByPosition (type : TypeName) : Option Package :=
  let element := (type.element?.getD type.binary).toList
  if TypeName.isPrimitiveLetter element then some ofPrimitives
  else match Signature.rfind? '/' element with
    | some pos => do return ⟨String.ofList (← Signature.slice? element 0 pos), false⟩
    | none => some ⟨"", false⟩

end ClassFile
