import ClassFile.Input

/-!
# Instructions

The code of a method is a row of instructions, each an opcode and its operands. Most
have operands of a fixed width; the two switches are padded to a multiple of four and
carry a table, and `wide` doubles the operands of the instruction after it.

An instruction is read as an `Action`, what it means to a walk that looks for classes
and methods, and a number of bytes behind it that mean nothing to the walk. The action
is known, and may be acted upon, before those bytes are asked for.
-/

namespace ClassFile

namespace Opcode

def ldc : UInt8 := 0x12
def ldcWide : UInt8 := 0x13
def iinc : UInt8 := 0x84
def tableSwitch : UInt8 := 0xAA
def lookupSwitch : UInt8 := 0xAB
def invokeVirtual : UInt8 := 0xB6
def invokeSpecial : UInt8 := 0xB7
def invokeStatic : UInt8 := 0xB8
def invokeInterface : UInt8 := 0xB9
def newObject : UInt8 := 0xBB
def newArray : UInt8 := 0xBD
def checkCast : UInt8 := 0xC0
def instanceOf : UInt8 := 0xC1
def wide : UInt8 := 0xC4
def newMultiArray : UInt8 := 0xC5

/-- The number of operand bytes after an opcode. The switches and `wide`, which have no
fixed number, and opcodes without an instruction are given none. -/
def operandWidth (opcode : UInt8) : Nat :=
  match opcode.toNat with
  -- constants
  | 0x10 => 1
  | 0x11 => 2
  | 0x12 => 1
  | 0x13 => 2
  | 0x14 => 2
  | 0x84 => 2
  | 0xA9 => 1
  -- calls and objects
  | 0xB9 => 4
  | 0xBA => 4
  | 0xBB => 2
  | 0xBC => 1
  | 0xBD => 2
  | 0xC0 => 2
  | 0xC1 => 2
  | 0xC5 => 3
  | 0xC6 => 2
  | 0xC7 => 2
  | 0xC8 => 4
  | 0xC9 => 4
  | n =>
    -- loads and stores of a local variable
    if 0x15 ≤ n ∧ n ≤ 0x19 ∨ 0x36 ≤ n ∧ n ≤ 0x3A then 1
    -- branches, and members by their pool index
    else if 0x99 ≤ n ∧ n ≤ 0xA8 ∨ 0xB2 ≤ n ∧ n ≤ 0xB8 then 2
    else 0

end Opcode

/-- What an instruction means to a walk that looks for classes and methods. -/
inductive Action where
  /-- A constant is loaded. -/
  | load (index : UInt16)
  /-- A class is named by an instruction that makes or tests an object. -/
  | type (index : UInt16)
  /-- A method is called on an object. -/
  | invoke (index : UInt16)
  /-- A method is called without an object. -/
  | invokeStatic (index : UInt16)
  /-- A widened access to a local variable, which a walk does not notice at all. -/
  | widened
  /-- Anything else. -/
  | other
  deriving DecidableEq, Repr

/-- An instruction as a walk sees it. -/
structure Instruction where
  action : Action
  /-- How many bytes of it are left when the action is known. -/
  trailing : Nat
  deriving DecidableEq, Repr

namespace Instruction

/-- Passes over the padding before a switch: up to the next offset, from the start of
the code, that four divides. -/
def align : Reader Unit := fun input =>
  Input.skip ((4 - input.offset % 4) % 4) input

/-- The size of the jump table for keys from `low` to `high`. The table may be empty,
but `high` may not lie more than one below `low`. -/
def jumpTableSize (low high : Int32) : Except Fault Nat :=
  let entries := high.toInt - low.toInt + 1
  if entries < 0 then .error (.switchBounds low high) else .ok (entries.toNat * 4)

/-- The size of a table of key and jump pairs. -/
def pairTableSize (pairs : Int32) : Except Fault Nat :=
  if pairs.toInt < 0 then .error (.switchPairs pairs) else .ok (pairs.toInt.toNat * 8)

/-- Goes on with a result that needed no input. -/
def checked {α : Type} : Except Fault α → Reader α
  | .ok value => pure value
  | .error fault => throw fault

/-- The next instruction, up to where its action is known. -/
def read : Reader Instruction := do
  let opcode ← Input.u1
  if opcode = Opcode.ldc then
    return ⟨.load (← Input.u1).toUInt16, 0⟩
  else if opcode = Opcode.ldcWide then
    return ⟨.load (← Input.u2), 0⟩
  else if opcode = Opcode.newObject ∨ opcode = Opcode.newArray ∨ opcode = Opcode.checkCast ∨
      opcode = Opcode.instanceOf then
    return ⟨.type (← Input.u2), 0⟩
  else if opcode = Opcode.newMultiArray then
    return ⟨.type (← Input.u2), 1⟩
  else if opcode = Opcode.invokeVirtual ∨ opcode = Opcode.invokeSpecial then
    return ⟨.invoke (← Input.u2), 0⟩
  else if opcode = Opcode.invokeInterface then
    -- a count and a zero follow
    return ⟨.invoke (← Input.u2), 2⟩
  else if opcode = Opcode.invokeStatic then
    return ⟨.invokeStatic (← Input.u2), 0⟩
  else if opcode = Opcode.wide then
    let wrapped ← Input.u1
    Input.skip 2
    return ⟨.widened, if wrapped = Opcode.iinc then 2 else 0⟩
  else if opcode = Opcode.tableSwitch then
    align
    let _default ← Input.i4
    let low ← Input.i4
    let high ← Input.i4
    return ⟨.other, ← checked (jumpTableSize low high)⟩
  else if opcode = Opcode.lookupSwitch then
    align
    let _default ← Input.i4
    let pairs ← Input.i4
    return ⟨.other, ← checked (pairTableSize pairs)⟩
  else
    return ⟨.other, Opcode.operandWidth opcode⟩

end Instruction

end ClassFile
