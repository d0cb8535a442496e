import ClassFile.Decoder.References

/-!
# Annotations in a class file

An annotation is a type and a table of named values. Values nest: a value can be a list
of values, or an annotation with values of its own. How deep they nest is bounded, and
the bound is the measure of the recursion: `value` is given the number of levels that
may still be entered.

An annotation that is visible at run time refers to its type, and to the types of the
enumeration constants and class literals in it; one that is not refers to none of
them. Either way its type is noted down.
-/

namespace ClassFile.Decode

variable (context : Context)

/-- An integer constant of the pool. -/
def intConstant (index : UInt16) : Decode Int32 := do
  match ← ask (·.entry index) with
  | .integer value => return value
  | found => throw (.wrongEntry .integer index found)

/-- A type that an annotation names, at an index of the pool: referred to and exposed if
the annotation is visible at run time. -/
def annotationType (retention : Retention) (access : Access) (index : UInt16) :
    Decode TypeName := do
  let type := TypeName.ofText (← utf8 index)
  if retention = .runtime then
    referDescriptor context index 0
    expose context type access
  return type

/-- A number of elements, put to those that are there. -/
def elements (readValue : Decode Value) :
    (n : Nat) → List (String × Value) → Decode (List (String × Value))
  | 0, found => pure found
  | n + 1, found => do
    let name ← utf8 (← u2)
    let value ← readValue
    elements readValue n <| Annotation.putElement name value found

/-- Notes down the type of an annotation, and where annotations of its kind can be seen. -/
def noteAnnotation (type : TypeName) (retention : Retention) : Decode Unit :=
  updateRecord fun record =>
    let record := { record with annotationTypes := record.annotationTypes.insert type }
    match retention with
    | .runtime => { record with runtimeAnnotations := true }
    | .compiled => { record with compiledAnnotations := true }

/-- An annotation, whose values are read by the given step. -/
def annotation (readValue : Decode Value) (site : Site) (retention : Retention)
    (access : Access) : Decode Annotation := do
  let index ← u2
  let type := TypeName.ofText (← utf8 index)
  noteAnnotation type retention
  let _ ← annotationType context retention access index
  let elements ← elements readValue (← count) []
  return ⟨type, retention, site, elements⟩

/-- An element value that may enter the given number of levels, itself included. -/
def value (site : Site) (retention : Retention) (access : Access) :
    (levels : Nat) → Decode Value
  | 0 => throw .valueNesting
  | levels + 1 => do
    let tag ← read Input.u1
    match Char.ofNat tag.toNat with
    | 'B' | 'C' | 'I' | 'S' => return .int (← intConstant (← u2))
    | 'Z' => return .boolean ((← intConstant (← u2)) != 0)
    | 'J' =>
      let index ← u2
      match ← ask (·.entry index) with
      | .long value => return .long value
      | found => throw (.wrongEntry .long index found)
    | 'F' =>
      let index ← u2
      match ← ask (·.entry index) with
      | .float bits => return .float bits
      | found => throw (.wrongEntry .float index found)
    | 'D' =>
      let index ← u2
      match ← ask (·.entry index) with
      | .double bits => return .double bits
      | found => throw (.wrongEntry .double index found)
    | 's' => return .string (← utf8 (← u2))
    | 'e' =>
      let type ← annotationType context retention access (← u2)
      return .enumConstant type (← utf8 (← u2))
    | 'c' => return .classLiteral (← annotationType context retention access (← u2))
    | '@' =>
      return (← annotation context (value site retention access levels) site retention
        access).toValue
    | '[' => return .array (← listOf (← count) (value site retention access levels))
    | _ => throw (.elementTag tag)

/-- An element value outside of any other. -/
def outerValue (site : Site) (retention : Retention) (access : Access) : Decode Value :=
  value context site retention access (nestingLimit + 1)

/-- An annotation outside of any other. -/
def outerAnnotation (site : Site) (retention : Retention) (access : Access) :
    Decode Annotation :=
  annotation context (outerValue context site retention access) site retention access

/-- A list of annotations. Those on the class are kept with it, the others with the
member they stand on. -/
def annotations (site : Site) (retention : Retention) (access : Access) : Decode Unit := do
  repeated (← count) do
    let annotation ← outerAnnotation context site retention access
    tell context (.annotated annotation)
    if site = .type then
      updateRecord fun record =>
        { record with annotations := record.annotations.push annotation }
    else
      updateMember fun member =>
        { member with annotations := member.annotations.push annotation }

/-- A list of annotations for each parameter. -/
def parameterAnnotations (retention : Retention) (access : Access) : Decode Unit := do
  let parameters ← read Input.u1
  (List.range parameters.toNat).forM fun parameter => do
    tell context (.parameter (UInt8.ofNat parameter))
    annotations context .parameter retention access

/-- The number of bytes that tell which use of a type an annotation stands on, for each
kind of use. Of local variables there is a table. -/
def typeTargetWidth (target : UInt8) : Decode Nat := do
  let kind := target.toNat
  -- parameters
  if kind = 0x00 ∨ kind = 0x01 ∨ kind = 0x16 then return 1
  -- supertypes, bounds of type parameters, and thrown types
  else if 0x10 ≤ kind ∧ kind ≤ 0x12 ∨ kind = 0x17 then return 2
  -- the types of fields, results and receivers
  else if 0x13 ≤ kind ∧ kind ≤ 0x15 then return 0
  -- local variables
  else if kind = 0x40 ∨ kind = 0x41 then return (← count) * 6
  -- caught types, tested and made objects, and method references
  else if 0x42 ≤ kind ∧ kind ≤ 0x46 then return 2
  -- casts and type arguments
  else if 0x47 ≤ kind ∧ kind ≤ 0x4B then return 3
  else throw (.typeTarget target)

/-- A list of annotations on uses of types. They belong to no member. -/
def typeAnnotations (site : Site) (retention : Retention) (access : Access) :
    Decode Unit := do
  repeated (← count) do
    let width ← typeTargetWidth (← read Input.u1)
    read (Input.skip width)
    let path ← read Input.u1
    read (Input.skip (path.toNat * 2))
    let _ ← outerAnnotation context site retention access

end ClassFile.Decode
