import ClassFile.Guarded.Decoder
import ClassFile.Layout

/-!
# Sequences of readings

Whoever holds the input may read from it in any order and go on after a failure. The readings
that are offered are the values of a type here (`ClassFile.Operation`), so a use of the input
is a list of them. Every reading is given twice, at the front of the bytes that are left and
over a cursor in memory, where the lengths that are asked for may be any numbers of 64 bits.

What a reading has to do is said without either of them, by the bytes, the position at which it
is done, what comes of it and the position after it (`ClassFile.Operation.Law`).
-/

namespace ClassFile

/-- A reading at the front of what is left. -/
inductive Operation where
  | u1
  | u2
  | u4
  | i4
  | u8
  | skip (n : UInt64)
  | take (n : UInt64)
  /-- A text after its length. -/
  | text
  deriving DecidableEq, Repr

namespace Operation

/-- What is read. -/
abbrev Value : Operation → Type
  | u1 => UInt8
  | u2 => UInt16
  | u4 => UInt32
  | i4 => Int32
  | u8 => UInt64
  | skip _ => Unit
  | take _ => Bytes
  | text => String

/-! ### At the front of the input -/

/-- The reading of what is left. -/
def read : (op : Operation) → Reader op.Value
  | u1 => Input.u1
  | u2 => Input.u2
  | u4 => Input.u4
  | i4 => Input.i4
  | u8 => Input.u8
  | skip n => Input.skip n.toNat
  | take n => Input.take n.toNat
  | text => Input.text

/-- What comes of a reading, and what is left after it, whether it fails or not. -/
def perform (op : Operation) (input : Input) : Except Fault op.Value × Input :=
  match op.read input with
  | .ok value rest => (.ok value, rest)
  | .error fault rest => (.error fault, rest)

/-- What is left after some readings, of which any may fail. -/
def performAll (ops : List Operation) (input : Input) : Input :=
  ops.foldl (fun input op => (op.perform input).2) input

end Operation

/-! ### Over a cursor -/

namespace Cursor

/-- A cursor at the start of some bytes. -/
def ofBytes (data : Bytes) : Cursor := ⟨data, 0⟩

/-- How many bytes are left. -/
def remaining (cursor : Cursor) : Nat := cursor.data.length - cursor.pos

/-- A text after its length in bytes. -/
def text : Guarded Fault Cursor String := do
  let length ← u2
  match ModifiedUtf8.decode (← take length.toNat) with
  | .ok text => return text
  | .error why => throw (.text why)

end Cursor

namespace Operation

/-- The reading over a cursor. -/
def readGuarded : (op : Operation) → Guarded Fault Cursor op.Value
  | u1 => Cursor.u1
  | u2 => Cursor.u2
  | u4 => Cursor.u4
  | i4 => Cursor.i4
  | u8 => Cursor.u8
  | skip n => Cursor.skip n.toNat
  | take n => Cursor.take n.toNat
  | text => Cursor.text

/-- What comes of a reading, and the cursor after it, unless it crashes. -/
def performGuarded (op : Operation) (cursor : Cursor) :
    Option (Except Fault op.Value × Cursor) := op.readGuarded cursor

/-- The cursor after some readings, unless one of them crashes. -/
def performAllGuarded (ops : List Operation) (cursor : Cursor) : Option Cursor :=
  ops.foldlM (fun cursor op => (op.performGuarded cursor).map Prod.snd) cursor

/-! ### What a reading has to do -/

/-- How many bytes a reading wants, unless they tell themselves. -/
def width? : Operation → Option Nat
  | u1 => some 1
  | u2 => some 2
  | u4 => some 4
  | i4 => some 4
  | u8 => some 8
  | skip n => some n.toNat
  | take n => some n.toNat
  | text => none

/-- The bytes are how the value is written. A text stands here without its length. -/
def WrittenAs : (op : Operation) → op.Value → Bytes → Prop
  | u1, n, bytes => bytes = [n]
  | u2, n, bytes => bytes = Form.u2.encode n
  | u4, n, bytes => bytes = Form.u4.encode n
  | i4, n, bytes => bytes = Form.i4.encode n
  | u8, n, bytes => bytes = Form.u8.encode n
  | skip _, _, _ => True
  | take _, taken, bytes => bytes = taken
  | text, string, bytes => ModifiedUtf8.decode bytes = .ok string

/-- A number of bytes from a position on. -/
def piece (data : Bytes) (pos n : Nat) : Bytes := (data.drop pos).take n

/-- What a reading does at a position: what comes of it, and the position after it. -/
inductive Law (data : Bytes) (pos : Nat) :
    (op : Operation) → Except Fault op.Value → (next : Nat) → Prop
  /-- The bytes are there. -/
  | read {op : Operation} {width : Nat} {value : op.Value} (hwidth : op.width? = some width)
      (hroom : pos + width ≤ data.length) (hvalue : op.WrittenAs value (piece data pos width)) :
      Law data pos op (.ok value) (pos + width)
  /-- The bytes are not there. -/
  | short {op : Operation} {width : Nat} (hwidth : op.width? = some width)
      (hshort : data.length < pos + width) :
      Law data pos op (.error (.endOfInput pos width)) pos
  /-- The length of a text is not there. -/
  | noLength (hshort : data.length < pos + 2) :
      Law data pos .text (.error (.endOfInput pos 2)) pos
  /-- The length of a text is there, and fewer bytes than it says. -/
  | noBytes {length : UInt16} (hlength : piece data pos 2 = Form.u2.encode length)
      (hroom : pos + 2 ≤ data.length) (hshort : data.length < pos + 2 + length.toNat) :
      Law data pos .text (.error (.endOfInput (pos + 2) length.toNat)) (pos + 2)
  /-- The bytes of a text are there, and are none. -/
  | noText {length : UInt16} {why : TextFault}
      (hlength : piece data pos 2 = Form.u2.encode length)
      (hroom : pos + 2 + length.toNat ≤ data.length)
      (hbytes : ModifiedUtf8.decode (piece data (pos + 2) length.toNat) = .error why) :
      Law data pos .text (.error (.text why)) (pos + 2 + length.toNat)
  /-- A text is there. -/
  | text {length : UInt16} {string : String}
      (hlength : piece data pos 2 = Form.u2.encode length)
      (hroom : pos + 2 + length.toNat ≤ data.length)
      (hbytes : WrittenAs .text string (piece data (pos + 2) length.toNat)) :
      Law data pos .text (.ok string) (pos + 2 + length.toNat)

end Operation

end ClassFile
