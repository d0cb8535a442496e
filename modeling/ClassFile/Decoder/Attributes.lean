import ClassFile.Decoder.Annotations

/-!
# Attributes

Classes, members and method bodies carry tables of attributes, each with a name, a
length and that many bytes. An attribute is read in its own bytes alone: what it leaves
over is passed over, and it cannot reach into what follows. Attributes with an unknown
name are not looked at.

A method body is an attribute with a table of attributes in it. What is done with a
body is therefore a parameter of `attributes`: `attributes` with a step that does
nothing never enters one, `code` walks through one and reads the attributes in it
without entering any further.
-/

namespace ClassFile

/-- The attributes that are looked at. -/
inductive AttributeKind where
  | deprecated
  | annotations (retention : Retention)
  | parameterAnnotations (retention : Retention)
  | typeAnnotations (retention : Retention)
  | innerClasses
  | enclosingMethod
  | sourceFile
  | code
  | signature
  | constantValue
  | annotationDefault
  | exceptions
  | other
  deriving DecidableEq, Repr

/-- The attribute of a name. -/
def AttributeKind.ofName (name : String) : AttributeKind :=
  match name with
  | "Deprecated" => .deprecated
  | "RuntimeVisibleAnnotations" => .annotations .runtime
  | "RuntimeInvisibleAnnotations" => .annotations .compiled
  | "RuntimeVisibleParameterAnnotations" => .parameterAnnotations .runtime
  | "RuntimeInvisibleParameterAnnotations" => .parameterAnnotations .compiled
  | "RuntimeVisibleTypeAnnotations" => .typeAnnotations .runtime
  | "RuntimeInvisibleTypeAnnotations" => .typeAnnotations .compiled
  | "InnerClasses" => .innerClasses
  | "EnclosingMethod" => .enclosingMethod
  | "SourceFile" => .sourceFile
  | "Code" => .code
  | "Signature" => .signature
  | "ConstantValue" => .constantValue
  | "AnnotationDefault" => .annotationDefault
  | "Exceptions" => .exceptions
  | _ => .other

/-- The longest attribute that is accepted, in bytes. -/
def attributeLimit : Nat := 0x7FFFFFFF

namespace Decode

variable (context : Context)

/-- What is being read is deprecated: the member, or the class if no member is read. -/
def deprecatedAttribute (site : Site) : Decode Unit := do
  match (← get).last with
  | some _ => updateMember fun member => { member with deprecated := true }
  | none =>
    if site = .type then updateRecord fun record => { record with deprecated := true }
  tell context .deprecated

/-- Whether a step succeeds. What it did is kept either way. -/
def succeeds (body : Decode Unit) : Decode Bool := fun s =>
  match body s with
  | .ok _ t => .ok true t
  | .error _ t => .ok false t

/-- The generic signature at an index. One that follows no grammar is left out; it has
referred to the classes in front of the fault. -/
def signatureAt (site : Site) (access : Access) (index : UInt16) : Decode Unit := do
  if ← succeeds (referDescriptor context index access) then
    let signature ← utf8 index
    tell context (.signature signature)
    if site = .type then
      updateRecord fun record => { record with signature := some signature }
    else
      updateMember fun member => { member with signature := some signature }

/-- The generic signature of the class or member. -/
def signatureAttribute (site : Site) (access : Access) : Decode Unit := do
  signatureAt context site access (← u2)

/-- The constant at an index of the pool, as the value of a field. -/
def constantAt (index : UInt16) : Decode Value := do
  match ← ask (·.entry index) with
  | .integer value => return .int value
  | .float bits => return .float bits
  | .long value => return .long value
  | .double bits => return .double bits
  | .string text => return .string (← utf8 text)
  | .utf8 text => return .string text
  | found => throw (.notConstant index found)

/-- The value of a constant field. -/
def constantAttribute : Decode Unit := do
  let value ← constantAt (← u2)
  tell context (.constant value)
  updateMember fun member => { member with constant := some value }

/-- The default value of an annotation's element, kept as the constant of its method. -/
def annotationDefaultAttribute (site : Site) (access : Access) : Decode Unit := do
  let value ← outerValue context site .runtime access
  if (← get).last = some .method then
    match (← get).record.bind (·.methods.back?) with
    | some method =>
      tell context (.annotationDefault method value)
      updateMember fun member => { member with constant := some value }
    | none => return

/-- The class at an index of the pool, or none for index zero. -/
def classAt? (index : UInt16) : Decode (Option TypeName) :=
  if index = 0 then return none else return some (← classAt index)

/-- The table of nested classes. The flags of the class itself are taken from its own
entry. -/
def innerClassesAttribute : Decode Unit := do
  repeated (← count) do
    let innerIndex ← u2
    let outerIndex ← u2
    let nameIndex ← u2
    let access ← u2
    let inner ← classAt? innerIndex
    let outer ← classAt? outerIndex
    let simpleName ← if nameIndex = 0 then pure none else some <$> utf8 nameIndex
    let entry : InnerClass := ⟨inner, outer, simpleName, access⟩
    tell context (.innerClass entry)
    updateRecord fun record =>
      { record with
        innerAccess := if inner = some record.name then some access else record.innerAccess
        innerClasses := record.innerClasses.push entry }

/-- Where a local or anonymous class stands. -/
def enclosingMethodAttribute : Decode Unit := do
  let classIndex ← u2
  let methodIndex ← u2
  referClassConstant context classIndex
  let type ← classAt classIndex
  let place : EnclosingMethod ←
    if methodIndex = 0 then pure ⟨type, none, none⟩
    else do
      let (name, descriptor) ← ask (·.nameAndType methodIndex)
      pure ⟨type, some name, some descriptor⟩
  tell context (.enclosingMethod place)
  updateRecord fun record => { record with enclosingMethod := some place }

/-- The exceptions that a method declares. -/
def exceptionsAttribute (access : Access) : Decode Unit := do
  repeated (← count) do
    refer context (← classAt (← u2)) access

/-- The name of the source file. -/
def sourceFileAttribute : Decode Unit := do
  let name ← utf8 (← u2)
  updateRecord fun record => { record with sourceFile := some name }

/-- The body of an attribute; a method body is left to `onCode`. -/
def attributeBody (onCode : Decode Unit) (site : Site) (access : Access) :
    AttributeKind → Decode Unit
  | .deprecated => deprecatedAttribute context site
  | .annotations retention => annotations context site retention access
  | .parameterAnnotations retention => parameterAnnotations context retention access
  | .typeAnnotations retention => typeAnnotations context site retention access
  | .innerClasses => innerClassesAttribute context
  | .enclosingMethod => enclosingMethodAttribute context
  | .sourceFile => sourceFileAttribute
  | .code => onCode
  | .signature => signatureAttribute context site access
  | .constantValue => constantAttribute context
  | .annotationDefault => annotationDefaultAttribute context site access
  | .exceptions => exceptionsAttribute context access
  | .other => pure ()

/-- One attribute: its name, its length and its body. -/
def oneAttribute (onCode : Decode Unit) (site : Site) (access : Access) : Decode Unit := do
  let kind := AttributeKind.ofName (← utf8 (← u2))
  let length ← read Input.u4
  if attributeLimit < length.toNat then throw (.attributeLength length)
  let body ← read (Input.take length.toNat)
  within body (attributeBody context onCode site access kind)

/-- A table of attributes. -/
def attributes (onCode : Decode Unit) (site : Site) (access : Access) : Decode Unit := do
  repeated (← count) (oneAttribute context onCode site access)

/-- What a walk through a method body does with what the code names. Called methods are
looked up only if there is someone to be told. -/
def handlers : Handlers Decoder where
  constant := referClassConstant context
  method index := do
    if index ≠ 0 ∧ context.listener.isSome then
      let method ← ask (·.methodRef index)
      tell context (.methodCalled 0 (.ofText method.owner) method.name method.descriptor)
  text? s index := s.pool.stringConstant index
  loaded name := refer context (.ofDotted name) 0

/-- A method body: the code is walked through, the types that its handlers catch are
referred to, and the attributes in it belong to the method. -/
def code : Decode Unit := do
  let _maxStack ← u2
  let _maxLocals ← u2
  let length ← read Input.u4
  let code ← read (Input.take length.toNat)
  (handlers context).walk (← get).targets code
  repeated (← count) do
    read (Input.skip 6)
    referClassConstant context (← u2)
  attributes context (pure ()) .method 0

end Decode

end ClassFile
