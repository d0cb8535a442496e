import ClassFile.Bytecode.Row
import ClassFile.Layout

/-!
# The layout of code

The instructions of a method as they are written, one behind the other. Most are an opcode and
operands of a fixed width. `wide` stands in front of an instruction whose operands are twice as
wide. The switches are padded up to an offset that four divides, so that only with an offset is it
settled whether an instruction fits (`ClassFile.RawInstruction.FitsAt`); the padding may be any
bytes.

What a walk asks for at an instruction is read off its operands here
(`ClassFile.RawInstruction.mention?`), for those opcodes that name a class or a method in the pool.
-/

namespace ClassFile

namespace Opcode

/-- The opcodes whose first operand is the index of a constant that is loaded or of a class. -/
def ofConstants : List UInt8 :=
  [ldc, ldcWide, newObject, newArray, checkCast, instanceOf, newMultiArray]

/-- The opcodes whose first operand is the index of a method. -/
def ofMethods : List UInt8 := [invokeVirtual, invokeSpecial, invokeStatic, invokeInterface]

/-- The opcodes that are not followed by operands of a fixed width. -/
def ofVariableWidth : List UInt8 := [wide, tableSwitch, lookupSwitch]

end Opcode

/-- An instruction as it is written. -/
inductive RawInstruction where
  /-- An opcode, and operands of a fixed width. -/
  | fixed (opcode : UInt8) (operands : Bytes)
  /-- An instruction on a local variable, with wide operands. -/
  | widened (opcode : UInt8) (operands : Bytes)
  /-- A jump by a table for the keys from `low` to `high`. -/
  | tableSwitch (padding : Bytes) (otherwise low high : Int32) (jumps : List Int32)
  /-- A jump by a list of keys and jumps. -/
  | lookupSwitch (padding : Bytes) (otherwise : Int32) (pairs : List (Int32 × Int32))
  deriving DecidableEq, Repr

namespace RawInstruction

/-- What stands in front of the jumps of a table switch. -/
def tableHeader (padding : Bytes) (otherwise low high : Int32) : Bytes :=
  Opcode.tableSwitch :: (padding ++ (Form.i4.encode otherwise ++ (Form.i4.encode low ++
    Form.i4.encode high)))

/-- An instruction is written from its opcode on. -/
def encode : RawInstruction → Bytes
  | fixed opcode operands => opcode :: operands
  | widened opcode operands => Opcode.wide :: opcode :: operands
  | tableSwitch padding otherwise low high jumps =>
    tableHeader padding otherwise low high ++ jumps.flatMap Form.i4.encode
  | lookupSwitch padding otherwise pairs =>
    Opcode.lookupSwitch :: (padding ++ (Form.i4.encode otherwise ++
      (Form.i4.encode (Int32.ofNat pairs.length) ++
        pairs.flatMap (Form.i4.andThen fun _ => Form.i4).encode)))

/-- The bytes pad an opcode at this offset, so that four divides the offset behind them. -/
def Pads (offset : Nat) (padding : Bytes) : Prop :=
  padding.length < 4 ∧ (offset + 1 + padding.length) % 4 = 0

/-- The instruction can stand at this offset. -/
def FitsAt (offset : Nat) : RawInstruction → Prop
  | fixed opcode operands =>
    opcode ∉ Opcode.ofVariableWidth ∧ operands.length = Opcode.operandWidth opcode
  | widened opcode operands => operands.length = if opcode = Opcode.iinc then 4 else 2
  | tableSwitch padding _ low high jumps =>
    Pads offset padding ∧ low ≤ high ∧ (jumps.length : Int) = high.toInt - low.toInt + 1
  | lookupSwitch padding _ pairs => Pads offset padding ∧ pairs.length < 0x80000000

/-- The instructions can stand one behind the other from this offset on. -/
def FitFrom : (offset : Nat) → List RawInstruction → Prop
  | _, [] => True
  | offset, raw :: raws => raw.FitsAt offset ∧ FitFrom (offset + raw.encode.length) raws

/-- The constant or the method that an instruction names, by the number in its first one or two
bytes of operands. -/
def mention? : RawInstruction → Option Call
  | fixed opcode operands =>
    let index := UInt16.ofNat (Bytes.number (operands.take 2))
    if opcode ∈ Opcode.ofConstants then some (.constant index)
    else if opcode ∈ Opcode.ofMethods then some (.method index)
    else none
  | _ => none

instance (offset : Nat) (padding : Bytes) : Decidable (Pads offset padding) :=
  inferInstanceAs (Decidable (_ ∧ _))

instance (offset : Nat) : (raw : RawInstruction) → Decidable (raw.FitsAt offset)
  | fixed _ _ => inferInstanceAs (Decidable (_ ∧ _))
  | widened _ _ => inferInstanceAs (Decidable (_ = _))
  | tableSwitch _ _ _ _ _ => inferInstanceAs (Decidable (_ ∧ _ ∧ _))
  | lookupSwitch _ _ _ => inferInstanceAs (Decidable (_ ∧ _))

instance decidableFitFrom : (offset : Nat) → (raws : List RawInstruction) →
    Decidable (FitFrom offset raws)
  | _, [] => .isTrue trivial
  | offset, raw :: raws =>
    have := decidableFitFrom (offset + raw.encode.length) raws
    inferInstanceAs (Decidable (_ ∧ _))

end RawInstruction

end ClassFile
