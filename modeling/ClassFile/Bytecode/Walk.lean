import ClassFile.Bytecode.Instruction

/-!
# Walking through code

The code of a method is walked once, instruction by instruction, without following any
jump. What it names is handed to `Handlers`: class constants, called methods, and
classes that are loaded by name.

The last of these is an idiom: a string constant is loaded, and then one of the methods
in `Targets`, which load a class from its name, is called without an object. Calls of
other methods and widened instructions in between do not break the idiom; any other
instruction does, and a string that was used for one such call does not count again.
-/

namespace ClassFile

/-- What is done with what the code names. The handlers share a state and may fail. -/
structure Handlers (σ : Type) where
  /-- A constant is loaded, or a class is named. -/
  constant : UInt16 → EStateM Fault σ Unit
  /-- A method is called. -/
  method : UInt16 → EStateM Fault σ Unit
  /-- The text of a string constant. -/
  text? : σ → UInt16 → Option String
  /-- A class is loaded by its name with dots. -/
  loaded : String → EStateM Fault σ Unit

/-- The methods that load a class from its name, by the pool index of a reference. -/
structure Targets where
  /-- The one of the platform. -/
  forName : Option UInt16 := none
  /-- The one that early compilers put into the class itself. -/
  classDollar : Option UInt16 := none
  deriving DecidableEq, Repr

/-- Whether a call by this index loads a class from its name. -/
def Targets.contain (targets : Targets) (index : UInt16) : Bool :=
  targets.forName = some index || targets.classDollar = some index

namespace Handlers

variable {σ : Type}

/-- Whether a text can be the name of a class in some package: it has a dot, and not in
front. -/
def namesClass (text : String) : Bool :=
  text.toList.contains '.' && text.toList.head? != some '.'

/-- Acts on an instruction. Takes and gives the index of the constant that was loaded
last, as long as that still counts. -/
def act (handlers : Handlers σ) (targets : Targets) (last : Option UInt16) :
    Action → EStateM Fault σ (Option UInt16)
  | .load index => do
    handlers.constant index
    return some index
  | .type index => do
    handlers.constant index
    return none
  | .invoke index => do
    handlers.method index
    return last
  | .invokeStatic index => do
    handlers.method index
    match targets.contain index, last with
    | true, some constant =>
      match handlers.text? (← get) constant with
      | some text =>
        if namesClass text then handlers.loaded text
        return none
      | none => return last
    | _, _ => return last
  | .widened => return last
  | .other => return none

/-- Walks over at most `fuel` instructions. -/
def walkFrom (handlers : Handlers σ) (targets : Targets) :
    (fuel : Nat) → (last : Option UInt16) → Input → EStateM Fault σ Unit
  | 0, _, _ => pure ()
  | fuel + 1, last, input =>
    if input.rest.isEmpty then pure ()
    else match Instruction.read input with
      | .error fault _ => throw fault
      | .ok instruction operands => do
        let last ← handlers.act targets last instruction.action
        match Input.skip instruction.trailing operands with
        | .error fault _ => throw fault
        | .ok _ rest => handlers.walkFrom targets fuel last rest

/-- Walks over all of a method's code. No instruction is empty, so there are at most as
many as there are bytes. -/
def walk (handlers : Handlers σ) (targets : Targets) (code : Bytes) : EStateM Fault σ Unit :=
  handlers.walkFrom targets code.length none (.ofBytes code)

end Handlers

end ClassFile
