import ClassFile.Fault

/-!
# Input

The bytes that are still to be read, with the offset of the first of them. Every field
of a class file is taken from the front, and a field that does not fit leaves the
input as it was and tells where it stood and how much it wanted.

A text is a length and that many bytes, so it can fail in three places; what was
taken before stays taken.
-/

namespace ClassFile

/-- Bytes to be read, and how many were read before them. -/
structure Input where
  offset : Nat
  rest : Bytes
  deriving DecidableEq, Repr

/-- A reading of fields from the front of the input. The input is kept on failure too,
as far as it was read. -/
abbrev Reader (α : Type) := EStateM Fault Input α

namespace Input

/-- All of a byte string, from its start. -/
def ofBytes (bytes : Bytes) : Input := ⟨0, bytes⟩

/-- The next `n` bytes. -/
def take (n : Nat) : Reader Bytes := fun input =>
  if input.rest.hasAtLeast n then
    .ok (input.rest.take n) ⟨input.offset + n, input.rest.drop n⟩
  else .error (.endOfInput input.offset n) input

theorem take_of_le {n : Nat} {input : Input} (h : n ≤ input.rest.length) :
    take n input = .ok (input.rest.take n) ⟨input.offset + n, input.rest.drop n⟩ := by
  simp [take, h]

theorem take_of_lt {n : Nat} {input : Input} (h : input.rest.length < n) :
    take n input = .error (.endOfInput input.offset n) input := by
  simp [take, Nat.not_le.mpr h]

/-- Passes over `n` bytes. -/
def skip (n : Nat) : Reader Unit := do
  let _ ← take n

/-- An unsigned number of one byte. -/
def u1 : Reader UInt8 := return UInt8.ofNat (← take 1).number

/-- An unsigned number of two bytes. -/
def u2 : Reader UInt16 := return UInt16.ofNat (← take 2).number

/-- An unsigned number of four bytes. -/
def u4 : Reader UInt32 := return UInt32.ofNat (← take 4).number

/-- A signed number of four bytes. -/
def i4 : Reader Int32 := return (← u4).toInt32

/-- An unsigned number of eight bytes. -/
def u8 : Reader UInt64 := return UInt64.ofNat (← take 8).number

/-- A text after its length in bytes. -/
def text : Reader String := do
  let length ← u2
  match ModifiedUtf8.decode (← take length.toNat) with
  | .ok text => return text
  | .error why => throw (.text why)

end Input

end ClassFile
