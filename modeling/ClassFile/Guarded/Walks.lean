import ClassFile.Bytecode.Row
import ClassFile.Session

/-!
# A decoding that takes down its walks

Which method bodies a decoding walks through depends on the fields, on the pool and on the version
of the class, and a decoding that fails may not come to all of them. So the decoding of a class file
that has no listener is given once more, with a list of the walks that it makes: when a walk begins,
the code is written down, and the pool as it is then. The decoding does not look at the list.

Without a listener, nothing is asked about the methods that the code calls. What would have been the
answer can be told from the list: `ClassFile.Walk.missed` is the fault of the first call of a method
that is not in the pool.
-/

namespace ClassFile

/-- A walk through a method body. -/
structure Walk where
  /-- The pool when the walk begins. -/
  pool : Pool
  /-- The code of the body. -/
  code : Bytes
  deriving DecidableEq, Repr

/-! ### Calls of methods -/

/-- The index of the method that an instruction calls. -/
def Action.called? : Action → Option UInt16
  | .invoke index | .invokeStatic index => some index
  | .load _ | .type _ | .widened | .other => none

namespace Pool

/-- What becomes of a pool when an instruction is acted upon: the class constant that it names is
marked. -/
def after (pool : Pool) : Action → Pool
  | .load index | .type index => (pool.markReferred index).2
  | .invoke _ | .invokeStatic _ | .widened | .other => pool

/-- Why the method at an index is not found. Nothing is looked up at index zero. -/
def missing (pool : Pool) (index : UInt16) : Option Fault :=
  if index = 0 then none
  else match pool.methodRef index with
    | .ok _ => none
    | .error fault => some fault

/-- Why the first of the called methods that is not found is not. -/
def firstMissing : Pool → List Action → Option Fault
  | _, [] => none
  | pool, action :: actions =>
    match action.called?.bind pool.missing with
    | some fault => some fault
    | none => (pool.after action).firstMissing actions

end Pool

namespace Walk

/-- The indices of the methods that the instructions of the body call. -/
def called (walk : Walk) : List UInt16 :=
  (Instruction.row walk.code).actions.filterMap Action.called?

/-- Every method that the body calls is in the pool. -/
def Resolves (walk : Walk) : Prop :=
  ∀ index ∈ walk.called, index ≠ 0 → ∃ method, walk.pool.methodRef index = .ok method

/-- Why the first call in the body that finds no method in the pool does not. -/
def missed (walk : Walk) : Option Fault :=
  walk.pool.firstMissing (Instruction.row walk.code).actions

end Walk

/-! ### The decoding -/

namespace Decode

/-- A step of a decoding that takes down its walks, in their order. -/
abbrev Watched (α : Type) := EStateM Fault (Decoder × List Walk) α

namespace Watched

variable {α : Type}

/-- A step in which nothing is walked through. -/
def plain (m : Decode α) : Watched α := fun (s, walks) =>
  match m s with
  | .ok value t => .ok value (t, walks)
  | .error fault t => .error fault (t, walks)

instance : MonadLift Decode Watched := ⟨plain⟩

/-- Reads other bytes than the rest of the input, as `ClassFile.Decode.within` does. -/
def within (bytes : Bytes) (body : Watched α) : Watched α := fun (s, walks) =>
  match body ({ s with input := .ofBytes bytes }, walks) with
  | .ok value (t, walks) => .ok value ({ t with input := s.input }, walks)
  | .error fault (t, walks) => .error fault ({ t with input := s.input }, walks)

/-- The same step a number of times. -/
def repeated : (n : Nat) → Watched Unit → Watched Unit
  | 0, _ => pure ()
  | n + 1, step => do
    step
    repeated n step

variable (context : Context)

/-- Code is walked through, after it was taken down. -/
def walk (code : Bytes) : Watched Unit := do
  modify fun (s, walks) => (s, walks ++ [⟨s.pool, code⟩])
  plain do (handlers context).walk (← get).targets code

/-- A method body. Bodies inside of it are not entered. -/
def code : Watched Unit := do
  let _maxStack ← u2
  let _maxLocals ← u2
  let length ← read Input.u4
  let code ← read (Input.take length.toNat)
  walk context code
  plain do
    Decode.repeated (← count) do
      read (Input.skip 6)
      referClassConstant context (← u2)
    Decode.attributes context (pure ()) .method 0

/-- The body of an attribute. -/
def attributeBody (onCode : Watched Unit) (site : Site) (access : Access) :
    AttributeKind → Watched Unit
  | .code => onCode
  | kind => plain (Decode.attributeBody context (pure ()) site access kind)

/-- One attribute of a method. -/
def oneAttribute (onCode : Watched Unit) (site : Site) (access : Access) : Watched Unit := do
  let kind := AttributeKind.ofName (← utf8 (← u2))
  let length ← read Input.u4
  if attributeLimit < length.toNat then throw (.attributeLength length)
  let body ← read (Input.take length.toNat)
  within body (attributeBody context onCode site access kind)

/-- The attributes of a method. -/
def attributes (onCode : Watched Unit) (site : Site) (access : Access) : Watched Unit := do
  repeated (← count) (oneAttribute context onCode site access)

/-- Whether method bodies are walked through. -/
def isWalking : Decode Bool := return (← get).walking

/-- A method with its attributes. -/
def method : Watched Unit := do
  let header ← memberHeader
  openMethod context header
  let onCode := if ← isWalking then code context else pure ()
  attributes context onCode (if header.isConstructor then .constructor else .method) header.access

/-- Everything after the name of the class. -/
def classBody (orphan : Bool) : Watched Record := do
  let access := (← record).access
  superclass context access
  interfaces context access
  Decode.repeated (← count) (field context)
  prepareWalks orphan
  repeated (← count) (method context)
  plain do
    tell context .membersEnd
    modify fun s => { s with last := none }
    Decode.attributes context (pure ()) .type access
    finish

/-- A class file. -/
def classFile (namer : Namer) : Watched (Option Record) := do
  let (_, orphan) ← classHeader ⟨namer, none⟩
  return some (← classBody ⟨namer, none⟩ orphan)

end Watched

end Decode

/-- The walks that a decoding without a listener makes, in their order. -/
def Session.walks (options : Options) (bytes : Bytes) (session : Session) : List Walk :=
  (Handlers.reached
    (Decode.Watched.classFile options.namer (session.decoder options none bytes, []))).2

end ClassFile
