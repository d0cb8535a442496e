import ClassFile.Layout

/-!
# The layout of annotations

An annotation is written with the index of its type and a table of values, each after the index
of its name. A value begins with a tag, and may have other values inside. How deep they nest is
bounded, as it is when they are read; the form of a value is given the number of levels that may
still be entered.

As for the other parts of a class file there are the actions for a layout that was read before.
The last part says which types an attribute names in annotations that can be seen at run time
(`ClassFile.Layout.Annotates`): these are the types that are exposed by what the annotation
stands on.
-/

namespace ClassFile

namespace Form

/-- A number of one byte. -/
def u1 : Form UInt8 where
  encode n := Bytes.bigEndian 1 n.toNat
  Fits _ := True

/-- A list after the number of its elements, in one byte. -/
def shortTable {ρ : Type} (form : Form ρ) : Form (List ρ) where
  encode raws := Bytes.bigEndian 1 raws.length ++ raws.flatMap form.encode
  Fits raws := raws.length < UInt8.size ∧ ∀ raw ∈ raws, form.Fits raw

end Form

/-! ### Values and annotations -/

/-- The value of an element. -/
inductive RawValue where
  /-- A constant of the pool, by the tag that says which kind it is. -/
  | constant (tag : UInt8) (index : UInt16)
  | enumConstant (type name : UInt16)
  | classLiteral (type : UInt16)
  | nested (type : UInt16) (elements : List (UInt16 × RawValue))
  | array (values : List RawValue)

/-- An annotation: the index of its type, and its values with the indices of their names. -/
structure RawAnnotation where
  type : UInt16
  elements : List (UInt16 × RawValue)

/-- An annotation, by the form of its values. -/
def Form.annotation (value : Form RawValue) : Form RawAnnotation where
  encode raw :=
    Form.u2.encode raw.type ++ (Form.u2.andThen fun _ => value).table.encode raw.elements
  Fits raw := (Form.u2.andThen fun _ => value).table.Fits raw.elements

namespace RawValue

/-- The tag of a value. -/
def tag : RawValue → UInt8
  | .constant tag _ => tag
  | .enumConstant _ _ => 101
  | .classLiteral _ => 99
  | .nested _ _ => 64
  | .array _ => 91

/-- Whether a letter is the tag of a constant. -/
def isConstantTag (c : Char) : Bool := "BCDFIJSZs".toList.contains c

/-- What follows the tag of a value, by the form of the values inside. -/
def tail (value : Form RawValue) : Form RawValue where
  encode raw :=
    match raw with
    | .constant _ index => Form.u2.encode index
    | .enumConstant type name => Form.u2.encode type ++ Form.u2.encode name
    | .classLiteral type => Form.u2.encode type
    | .nested type elements => value.annotation.encode ⟨type, elements⟩
    | .array values => value.table.encode values
  Fits raw :=
    match raw with
    | .constant tag _ => isConstantTag (Char.ofNat tag.toNat) = true
    | .enumConstant _ _ | .classLiteral _ => True
    | .nested type elements => value.annotation.Fits ⟨type, elements⟩
    | .array values => value.table.Fits values

/-- A value that may enter the given number of levels, itself included. -/
def form : (levels : Nat) → Form RawValue
  | 0 => ⟨fun _ => [], fun _ => False⟩
  | levels + 1 =>
    { encode := fun raw => Form.u1.encode raw.tag ++ (tail (form levels)).encode raw
      Fits := (tail (form levels)).Fits }

/-- A value outside of any other. -/
def outerForm : Form RawValue := form (nestingLimit + 1)

/-- The value names the type at an index: as the type of an annotation or of an enumeration
constant, or as a class literal. -/
inductive Names (index : UInt16) : RawValue → Prop where
  | enumConstant (name : UInt16) : Names index (.enumConstant index name)
  | classLiteral : Names index (.classLiteral index)
  | nested (elements : List (UInt16 × RawValue)) : Names index (.nested index elements)
  | element {type : UInt16} {elements : List (UInt16 × RawValue)} {name : UInt16}
    {value : RawValue} : (name, value) ∈ elements → Names index value →
    Names index (.nested type elements)
  | item {values : List RawValue} {value : RawValue} : value ∈ values → Names index value →
    Names index (.array values)

end RawValue

namespace RawAnnotation

/-- An annotation outside of any other. -/
def outerForm : Form RawAnnotation := RawValue.outerForm.annotation

/-- The annotation names the type at an index. -/
def Names (index : UInt16) (raw : RawAnnotation) : Prop :=
  RawValue.Names index (.nested raw.type raw.elements)

end RawAnnotation

/-! ### Annotations on uses of types -/

/-- The number of bytes that follow the kind of a use, if it is the same for all uses of that
kind. -/
def targetWidth? (target : UInt8) : Option Nat :=
  let kind := target.toNat
  if kind = 0x00 ∨ kind = 0x01 ∨ kind = 0x16 then some 1
  else if 0x10 ≤ kind ∧ kind ≤ 0x12 ∨ kind = 0x17 then some 2
  else if 0x13 ≤ kind ∧ kind ≤ 0x15 then some 0
  else if 0x42 ≤ kind ∧ kind ≤ 0x46 then some 2
  else if 0x47 ≤ kind ∧ kind ≤ 0x4B then some 3
  else none

/-- What follows the kind of a use. Of local variables there is a table. -/
def targetForm (target : UInt8) : Form Bytes where
  encode info := info
  Fits info :=
    if target.toNat = 0x40 ∨ target.toNat = 0x41 then
      ∃ n entries, Form.count.Fits n ∧ entries.length = n * 6 ∧
        info = Form.count.encode n ++ entries
    else some info.length = targetWidth? target

/-- An annotation on a use of a type: the kind of the use with what tells it from others of its
kind, the way to the part of the type, and the annotation. -/
structure RawTypeAnnotation where
  target : UInt8
  info : Bytes
  path : Bytes
  annotation : RawAnnotation

/-- The way to a part of a type takes two bytes for each step, after their number. -/
def RawTypeAnnotation.form : Form RawTypeAnnotation where
  encode raw :=
    Form.u1.encode raw.target ++ (raw.info ++ (Bytes.bigEndian 1 (raw.path.length / 2) ++
      (raw.path ++ RawAnnotation.outerForm.encode raw.annotation)))
  Fits raw := (targetForm raw.target).Fits raw.info ∧
    (∃ steps < UInt8.size, raw.path.length = steps * 2) ∧
    RawAnnotation.outerForm.Fits raw.annotation

/-! ### Acting on what was read -/

namespace Decode

variable (context : Context)

/-- What `value` does with the constant at an index, after a tag. -/
def constantOf (tag : UInt8) (index : UInt16) : Decode Value := do
  match Char.ofNat tag.toNat with
  | 'B' | 'C' | 'I' | 'S' => return .int (← intConstant index)
  | 'Z' => return .boolean ((← intConstant index) != 0)
  | 'J' =>
    match ← ask (·.entry index) with
    | .long value => return .long value
    | found => throw (.wrongEntry .long index found)
  | 'F' =>
    match ← ask (·.entry index) with
    | .float bits => return .float bits
    | found => throw (.wrongEntry .float index found)
  | 'D' =>
    match ← ask (·.entry index) with
    | .double bits => return .double bits
    | found => throw (.wrongEntry .double index found)
  | 's' => return .string (← utf8 index)
  | _ => throw (.elementTag tag)

/-- What `elements` does with the values of an annotation. -/
def elementsOf (act : RawValue → Decode Value) :
    List (UInt16 × RawValue) → List (String × Value) → Decode (List (String × Value))
  | [], found => pure found
  | (index, raw) :: raws, found => do
    let name ← utf8 index
    let value ← act raw
    elementsOf act raws <| Annotation.putElement name value found

/-- What `annotation` does with an annotation. -/
def annotationOf (act : RawValue → Decode Value) (site : Site) (retention : Retention)
    (access : Access) (raw : RawAnnotation) : Decode Annotation := do
  let type := TypeName.ofText (← utf8 raw.type)
  noteAnnotation type retention
  let _ ← annotationType context retention access raw.type
  let elements ← elementsOf act raw.elements []
  return ⟨type, retention, site, elements⟩

/-- What `value` does with a value. -/
def valueOf (site : Site) (retention : Retention) (access : Access) :
    (levels : Nat) → RawValue → Decode Value
  | 0, _ => throw .valueNesting
  | _ + 1, .constant tag index => constantOf tag index
  | _ + 1, .enumConstant type name => do
    let type ← annotationType context retention access type
    return .enumConstant type (← utf8 name)
  | _ + 1, .classLiteral type =>
    return .classLiteral (← annotationType context retention access type)
  | levels + 1, .nested type elements => do
    let act := valueOf site retention access levels
    return (← annotationOf context act site retention access ⟨type, elements⟩).toValue
  | levels + 1, .array values => do
    return .array (← values.mapM (valueOf site retention access levels))

/-- What `outerAnnotation` does with an annotation. -/
def outerAnnotationOf (site : Site) (retention : Retention) (access : Access)
    (raw : RawAnnotation) : Decode Annotation :=
  annotationOf context (valueOf context site retention access (nestingLimit + 1)) site retention
    access raw

/-- What `annotations` does with an annotation that was found. -/
def keepAnnotationOf (site : Site) (found : Annotation) : Decode Unit := do
  tell context (.annotated found)
  if site = .type then
    updateRecord fun record => { record with annotations := record.annotations.push found }
  else
    updateMember fun member => { member with annotations := member.annotations.push found }

/-- What `annotations` does with a list of annotations. -/
def annotationsOf (site : Site) (retention : Retention) (access : Access)
    (raws : List RawAnnotation) : Decode Unit :=
  raws.forM fun raw => do
    keepAnnotationOf context site (← outerAnnotationOf context site retention access raw)

/-- What `parameterAnnotations` does with the lists of annotations on the parameters. -/
def parameterAnnotationsOf (retention : Retention) (access : Access)
    (raws : List (List RawAnnotation)) : Decode Unit :=
  raws.zipIdx.forM fun (raws, parameter) => do
    tell context (.parameter (UInt8.ofNat parameter))
    annotationsOf context .parameter retention access raws

/-- What `typeAnnotations` does with a list of annotations on uses of types. -/
def typeAnnotationsOf (site : Site) (retention : Retention) (access : Access)
    (raws : List RawTypeAnnotation) : Decode Unit :=
  raws.forM fun raw => do
    let _ ← outerAnnotationOf context site retention access raw.annotation

/-- What `annotationDefaultAttribute` does with a value that was found. -/
def keepDefaultOf (value : Value) : Decode Unit := do
  if (← get).last = some .method then
    match (← get).record.bind (·.methods.back?) with
    | some method =>
      tell context (.annotationDefault method value)
      updateMember fun member => { member with constant := some value }
    | none => return

/-- What `annotationDefaultAttribute` does with a value. -/
def annotationDefaultOf (site : Site) (access : Access) (raw : RawValue) : Decode Unit := do
  keepDefaultOf context (← valueOf context site .runtime access (nestingLimit + 1) raw)

end Decode

/-! ### Types that are named for all to see -/

/-- The body of an attribute names the type at an index, in an annotation that is visible at run
time or in the default value of an annotation's element. -/
inductive AttributeKind.Annotates (index : UInt16) : AttributeKind → Bytes → Prop where
  | annotations {raws : List RawAnnotation} {raw : RawAnnotation} (rest : Bytes) :
    RawAnnotation.outerForm.table.Fits raws → raw ∈ raws → raw.Names index →
    Annotates index (.annotations .runtime) (Form.encode RawAnnotation.outerForm.table raws ++ rest)
  | parameterAnnotations {lists : List (List RawAnnotation)} {raws : List RawAnnotation}
    {raw : RawAnnotation} (rest : Bytes) :
    RawAnnotation.outerForm.table.shortTable.Fits lists → raws ∈ lists → raw ∈ raws →
    raw.Names index → Annotates index (.parameterAnnotations .runtime)
      (Form.encode RawAnnotation.outerForm.table.shortTable lists ++ rest)
  | typeAnnotations {raws : List RawTypeAnnotation} {raw : RawTypeAnnotation} (rest : Bytes) :
    RawTypeAnnotation.form.table.Fits raws → raw ∈ raws → raw.annotation.Names index →
    Annotates index (.typeAnnotations .runtime)
      (Form.encode RawTypeAnnotation.form.table raws ++ rest)
  | annotationDefault {raw : RawValue} (rest : Bytes) :
    RawValue.outerForm.Fits raw → raw.Names index →
    Annotates index .annotationDefault (RawValue.outerForm.encode raw ++ rest)

/-- An attribute names the type at an index, by what the pool says is its name. -/
def RawAttribute.Annotates (pool : Pool) (index : UInt16) (raw : RawAttribute) : Prop :=
  ∃ name, pool.utf8 raw.name = .ok name ∧ (AttributeKind.ofName name).Annotates index raw.body

/-- An attribute of the class or of a visible member names the type at an index. -/
def Layout.Annotates (layout : Layout) (index : UInt16) : Prop :=
  (∃ raw ∈ layout.attributes, raw.Annotates layout.constants index) ∨
    ∃ kind, ∃ member ∈ layout.members kind, member.access.isVisible = true ∧
      ∃ raw ∈ member.attributes, raw.Annotates layout.constants index

end ClassFile
