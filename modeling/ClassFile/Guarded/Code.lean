import ClassFile.Guarded.Decoder

/-!
# Walking through code by position

The walk through a method body over a cursor. The padding before a switch is computed from
the position, the tables of switches are measured in numbers of 64 bits, and the number of
operand bytes is looked up in a table with one place for each opcode.

The walk goes on while there are bytes, and nothing here says that it comes to an end.
-/

namespace ClassFile

/-- A number that fits into 64 bits with a sign. -/
def signedWord? (n : Int) : Option Int :=
  if -0x8000000000000000 ≤ n ∧ n < 0x8000000000000000 then some n else none

namespace Instruction

/-- Passes over the padding before a switch. -/
def alignGuarded : Guarded Fault Cursor Unit := do
  let cursor ← get
  let left ← Guarded.expect (if cursor.pos % 4 ≤ 4 then some (4 - cursor.pos % 4) else none)
  Cursor.skip (left % 4)

/-- The size of a jump table. -/
def jumpTableSizeGuarded (low high : Int32) : Guarded Fault Cursor Nat := do
  let distance ← Guarded.expect (signedWord? (high.toInt - low.toInt))
  let entries ← Guarded.expect (signedWord? (distance + 1))
  if entries < 0 then throw (.switchBounds low high)
  else Guarded.expect (word? (entries.toNat * 4))

/-- The size of a table of pairs. -/
def pairTableSizeGuarded (pairs : Int32) : Guarded Fault Cursor Nat := do
  if pairs.toInt < 0 then throw (.switchPairs pairs)
  else Guarded.expect (word? (pairs.toInt.toNat * 8))

/-- The numbers of operand bytes, by opcode. -/
def operandWidths : Array Nat :=
  .ofFn fun opcode : Fin 256 => Opcode.operandWidth (UInt8.ofNat opcode)

/-- The next instruction, up to where its action is known. -/
def readGuarded : Guarded Fault Cursor Instruction := do
  let opcode ← Cursor.u1
  if opcode = Opcode.ldc then
    return ⟨.load (← Cursor.u1).toUInt16, 0⟩
  else if opcode = Opcode.ldcWide then
    return ⟨.load (← Cursor.u2), 0⟩
  else if opcode = Opcode.newObject ∨ opcode = Opcode.newArray ∨ opcode = Opcode.checkCast ∨
      opcode = Opcode.instanceOf then
    return ⟨.type (← Cursor.u2), 0⟩
  else if opcode = Opcode.newMultiArray then
    return ⟨.type (← Cursor.u2), 1⟩
  else if opcode = Opcode.invokeVirtual ∨ opcode = Opcode.invokeSpecial then
    return ⟨.invoke (← Cursor.u2), 0⟩
  else if opcode = Opcode.invokeInterface then
    return ⟨.invoke (← Cursor.u2), 2⟩
  else if opcode = Opcode.invokeStatic then
    return ⟨.invokeStatic (← Cursor.u2), 0⟩
  else if opcode = Opcode.wide then
    let wrapped ← Cursor.u1
    Cursor.skip 2
    return ⟨.widened, if wrapped = Opcode.iinc then 2 else 0⟩
  else if opcode = Opcode.tableSwitch then
    alignGuarded
    let _default ← Cursor.i4
    let low ← Cursor.i4
    let high ← Cursor.i4
    return ⟨.other, ← jumpTableSizeGuarded low high⟩
  else if opcode = Opcode.lookupSwitch then
    alignGuarded
    let _default ← Cursor.i4
    let pairs ← Cursor.i4
    return ⟨.other, ← pairTableSizeGuarded pairs⟩
  else
    return ⟨.other, ← Guarded.expect operandWidths[opcode.toNat]?⟩

end Instruction

namespace Handlers

variable {σ : Type}

/-- Walks through the code behind a cursor. -/
def walkBehind (handlers : Handlers σ) (targets : Targets) (last : Option UInt16)
    (cursor : Cursor) : Guarded Fault σ Unit := do
  if cursor.pos < cursor.data.length then
    match Instruction.readGuarded cursor with
    | none => Guarded.crash
    | some (.error fault, _) => throw fault
    | some (.ok instruction, operands) =>
      let last ← Guarded.sound (handlers.act targets last instruction.action)
      match Cursor.skip instruction.trailing operands with
      | none => Guarded.crash
      | some (.error fault, _) => throw fault
      | some (.ok (), next) => handlers |>.walkBehind targets last next
  else return
partial_fixpoint

end Handlers

end ClassFile
