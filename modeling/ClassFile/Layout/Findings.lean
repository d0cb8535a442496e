import ClassFile.Layout.Code

/-!
# Annotations that are found

The types of all annotations anywhere in a class are put on its record, and for each retention
whether there is an annotation of it. An annotation may stand on the class, on a member or on a use
of a type, or be the value of an element of another one (`ClassFile.RawValue.Includes`). What is put
on record is `ClassFile.Record.Finds`.

The last part says in which attributes there are annotations: in those for annotations of a
retention (`ClassFile.AttributeKind.Retains`), and in default values
(`ClassFile.AttributeKind.Presets`).
-/

namespace ClassFile

/-! ### Annotations in values -/

/-- The value is an annotation of the type at an index, or there is one inside. -/
inductive RawValue.Includes (index : UInt16) : RawValue → Prop where
  | nested (elements : List (UInt16 × RawValue)) : Includes index (.nested index elements)
  | element {type : UInt16} {elements : List (UInt16 × RawValue)}
    {name : UInt16} {value : RawValue} :
    (name, value) ∈ elements → Includes index value → Includes index (.nested type elements)
  | item {values : List RawValue} {value : RawValue} : value ∈ values → Includes index value →
    Includes index (.array values)

/-- The annotation is of the type at an index, or there is one inside. -/
def RawAnnotation.Includes (index : UInt16) (raw : RawAnnotation) : Prop :=
  RawValue.Includes index (.nested raw.type raw.elements)

theorem RawAnnotation.includes_type (raw : RawAnnotation) : raw.Includes raw.type :=
  .nested raw.elements

theorem RawAnnotation.includes_iff {index : UInt16} {raw : RawAnnotation} :
    raw.Includes index ↔ index = raw.type ∨ ∃ element ∈ raw.elements, element.2.Includes index := by
  constructor
  · rintro (_ | ⟨hmem, hvalue⟩)
    · exact .inl rfl
    · exact .inr ⟨_, hmem, hvalue⟩
  · rintro (rfl | ⟨element, hmem, hvalue⟩)
    · exact raw.includes_type
    · exact .element hmem hvalue

theorem RawValue.includes_array_iff {index : UInt16} {values : List RawValue} :
    (RawValue.array values).Includes index ↔ ∃ value ∈ values, value.Includes index := by
  constructor
  · rintro (_ | _ | ⟨hmem, hvalue⟩)
    exact ⟨_, hmem, hvalue⟩
  · rintro ⟨value, hmem, hvalue⟩
    exact .item hmem hvalue

/-- Whether there is an annotation of the retention, by the record. -/
def Record.retains (record : Record) : Retention → Bool
  | .runtime => record.runtimeAnnotations
  | .compiled => record.compiledAnnotations

/-- What becomes of a record when annotations of these types are found, of which the pool has the
names: the types are added, and that there are annotations of the retention if there are any.
Nothing else is changed. -/
structure Record.Finds (pool : Pool) (retention : Retention) (indices : UInt16 → Prop)
    (before after : Record) : Prop where
  types (type : TypeName) : type ∈ after.annotationTypes ↔ type ∈ before.annotationTypes ∨
    ∃ index text, indices index ∧ pool.utf8 index = .ok text ∧ type = .ofText text
  retained (other : Retention) : after.retains other = true ↔
    before.retains other = true ∨ (∃ index, indices index) ∧ other = retention
  others : after = { before with
    annotationTypes := after.annotationTypes
    runtimeAnnotations := after.runtimeAnnotations
    compiledAnnotations := after.compiledAnnotations }

/-! ### Attributes with annotations -/

/-- There is an annotation in the body of an attribute for annotations of a retention. -/
inductive AttributeKind.Retains (retention : Retention) : AttributeKind → Bytes → Prop where
  | annotations {raws : List RawAnnotation} (rest : Bytes) :
    RawAnnotation.outerForm.table.Fits raws → raws ≠ [] →
    Retains retention (.annotations retention)
      (Form.encode RawAnnotation.outerForm.table raws ++ rest)
  | parameterAnnotations {lists : List (List RawAnnotation)} {raws : List RawAnnotation}
    (rest : Bytes) : RawAnnotation.outerForm.table.shortTable.Fits lists →
    raws ∈ lists → raws ≠ [] →
    Retains retention (.parameterAnnotations retention)
      (Form.encode RawAnnotation.outerForm.table.shortTable lists ++ rest)
  | typeAnnotations {raws : List RawTypeAnnotation} (rest : Bytes) :
    RawTypeAnnotation.form.table.Fits raws → raws ≠ [] →
    Retains retention (.typeAnnotations retention)
      (Form.encode RawTypeAnnotation.form.table raws ++ rest)

/-- The body of an attribute is the default value of an annotation's element, and there is an
annotation in it. -/
inductive AttributeKind.Presets : AttributeKind → Bytes → Prop where
  | annotationDefault {raw : RawValue} {index : UInt16} (rest : Bytes) :
    RawValue.outerForm.Fits raw → raw.Includes index →
    Presets .annotationDefault (RawValue.outerForm.encode raw ++ rest)

/-- An attribute is like that, by what the pool says is its name. -/
def RawAttribute.Meets (pool : Pool) (Q : AttributeKind → Bytes → Prop) (raw : RawAttribute) :
    Prop :=
  ∃ name, pool.utf8 raw.name = .ok name ∧ Q (AttributeKind.ofName name) raw.body

/-- An attribute is a method body, and one of the attributes in it is like that. -/
def RawAttribute.Encloses (pool : Pool) (Q : AttributeKind → Bytes → Prop) (raw : RawAttribute) :
    Prop :=
  pool.utf8 raw.name = .ok "Code" ∧ ∃ code rest, RawCode.form.Fits code ∧
    raw.body = RawCode.form.encode code ++ rest ∧ ∃ inner ∈ code.attributes, inner.Meets pool Q

end ClassFile
