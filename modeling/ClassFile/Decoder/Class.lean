import ClassFile.Decoder.Attributes

/-!
# Decoding a class

The parts of a class file in their order: magic number and version, pool, flags and
name, superclass and interfaces, fields, methods, and the attributes of the class.

Once the pool is read it is gone through for references. Every member reference refers
to its class, and every name and type to the classes in its descriptor. A class constant
that is named by no member reference is used by instructions alone, and a class with
such an orphan has its method bodies walked through. So has a class with a field in
which early compilers kept a class literal, and one of the last major version without
class literals that loads classes by name.
-/

namespace ClassFile.Decode

variable (context : Context)

/-- The number with which every class file begins. -/
def magic : UInt32 := 0xCAFEBABE

/-- The descriptor of a method that loads a class from its name. -/
def loaderDescriptor : String := "(Ljava/lang/String;)Ljava/lang/Class;"

/-- The number is there. -/
def checkMagic : Decode Unit := do
  let found ← read Input.u4
  if found ≠ magic then throw (.badMagic found)

/-- Reads the pool from its count on. -/
def readPool : Decode Unit := fun s =>
  match Pool.read ⟨s.input, s.pool⟩ with
  | .ok _ filled => .ok () { s with input := filled.input, pool := filled.pool }
  | .error fault filled => .error fault { s with input := filled.input, pool := filled.pool }

/-- Refers to what the entry in one slot of the pool names. -/
def referEntry (slot : Nat) : Decode Unit := do
  match (← get).pool.entries[slot]? with
  | some (.ref _ owner _) => referClassConstant context owner
  | some (.nameAndType _ descriptor) => referDescriptor context descriptor 0
  | _ => return

/-- Goes through the pool for references, slot by slot. -/
def referPool : Decode Unit := do
  ((List.range (← get).pool.size).drop 1).forM (referEntry context)

/-- The superclass at an index, unless there is none. -/
def superclassAt (access : Access) (index : UInt16) : Decode Unit := do
  if index ≠ 0 then
    let type ← classAt index
    refer context type access
    tell context (.superclass type)
    updateRecord fun record => { record with superclass := some type }

/-- The superclass. -/
def superclass (access : Access) : Decode Unit := do
  superclassAt context access (← u2)

/-- The interface at an index. -/
def interfaceAt (access : Access) (index : UInt16) : Decode TypeName := do
  let type ← classAt index
  refer context type access
  return type

/-- All interfaces, once they are known. -/
def keepInterfaces (types : List TypeName) : Decode Unit := do
  unless types.isEmpty do tell context (.interfaces types)
  updateRecord fun record => { record with interfaces := types }

/-- The interfaces. -/
def interfaces (access : Access) : Decode Unit := do
  let types ← listOf (← count) do interfaceAt context access (← u2)
  keepInterfaces context types

/-- Whether a field has the name under which early compilers kept a class literal. -/
def isClassLiteral (name : String) : Bool :=
  "class$".toList.isPrefixOf name.toList || "$class$".toList.isPrefixOf name.toList

/-- Flags, name and descriptor of a member, with the index of the descriptor. -/
structure MemberHeader where
  access : Access
  name : String
  descriptor : String
  descriptorIndex : UInt16

/-- The header of a field or method. -/
def memberHeader : Decode MemberHeader := do
  let access ← u2
  let name ← utf8 (← u2)
  let descriptorIndex ← u2
  let descriptor ← utf8 descriptorIndex
  return ⟨access, name, descriptor, descriptorIndex⟩

/-- A field, before its attributes. -/
def openField (header : MemberHeader) : Decode Unit := do
  if isClassLiteral header.name then modify fun s => { s with walking := true }
  let member := Member.field header.access header.name header.descriptor
  tell context (.field member)
  referDescriptor context header.descriptorIndex header.access
  updateRecord fun record => { record with fields := record.fields.push member }
  modify fun s => { s with last := some .field }

/-- A field with its attributes. -/
def field : Decode Unit := do
  let header ← memberHeader
  openField context header
  attributes context (pure ()) .field header.access

/-- The last major version whose compilers had no instruction for class literals. -/
def lastMajorWithoutLiterals : UInt16 := 48

/-- Decides whether method bodies are walked through, and looks up the methods that load
classes by name if they are. -/
def prepareWalks (orphan : Bool) : Decode Unit := do
  let record ← record
  modify fun s =>
    let forName := s.pool.findMethod ⟨"java/lang/Class", "forName", loaderDescriptor⟩
    let walking := s.walking || orphan ||
      record.major = lastMajorWithoutLiterals && forName.isSome
    if walking then
      let classDollar := s.pool.findMethod ⟨record.name.binary, "class$", loaderDescriptor⟩
      { s with walking, targets := ⟨forName, classDollar⟩ }
    else s

/-- Whether a method makes instances. -/
def MemberHeader.isConstructor (header : MemberHeader) : Bool :=
  header.name = "<init>"

/-- A method, before its attributes. -/
def openMethod (header : MemberHeader) : Decode Unit := do
  let arguments ← match Signature.arguments header.descriptor with
    | .ok arguments => pure arguments
    | .error fault => throw fault
  let isDefault := header.isConstructor && header.access.isPublic && header.descriptor = "()V"
  let member := Member.method header.access header.name header.descriptor
    (arguments.map TypeName.ofText)
  tell context (.method member)
  referDescriptor context header.descriptorIndex header.access
  updateRecord fun record =>
    { record with
      defaultConstructor := record.defaultConstructor || isDefault
      methods := record.methods.push member }
  modify fun s => { s with last := some .method }

/-- A method with its attributes. -/
def method : Decode Unit := do
  let header ← memberHeader
  openMethod context header
  let onCode := if (← get).walking then code context else pure ()
  attributes context onCode (if header.isConstructor then .constructor else .method) header.access

/-- The record, with all that was collected. -/
def finish : Decode Record := do
  let s ← get
  match s.record with
  | some record =>
    return { record with references := s.references, imports := s.imports, api := s.api }
  | none => throw .noRecord

/-- Everything after the name of the class. -/
def classBody (orphan : Bool) : Decode Record := do
  let access := (← record).access
  superclass context access
  interfaces context access
  repeated (← count) (field context)
  prepareWalks orphan
  repeated (← count) (method context)
  tell context .membersEnd
  modify fun s => { s with last := none }
  attributes context (pure ()) .type access
  finish

/-- A class, when its header is known. -/
def openClass (record : Record) : Decode Unit := do
  modify fun s => { s with api := if record.access.isPublic then some ∅ else none }
  refer context record.name Access.publicBit
  modify fun s => { s with record := some record }

/-- Everything up to the name of the class. Tells whether the pool has an orphan. -/
def classHeader : Decode (Record × Bool) := do
  checkMagic
  let minor ← u2
  let major ← u2
  tell context (.version minor major)
  readPool
  referPool context
  let orphan := (← get).pool.hasOrphan
  let access : Access ← u2
  let name ← classAt (← u2)
  let record := Record.header name major minor access
  openClass context record
  return (record, orphan)

/-- A class file, or none if the listener does not admit the class. A listener that was
told of the start is told of the end, whatever happens between. -/
def classFile : Decode (Option Record) := do
  let (record, orphan) ← classHeader context
  match context.listener with
  | none => return some (← classBody context orphan)
  | some listener =>
    tell context (.classStart record)
    let s ← get
    let admitted := listener.admits s.notes record s.session
    ending (if admitted then some <$> classBody context orphan else pure none)
      (Decoder.told context .classEnd)

end ClassFile.Decode
