import ClassFile.Decimal.Style
import ClassFile.Json
import ClassFile.Record.Basic

/-!
# Records as JSON

Types are written with dots, packages by their names with dots. What may be absent is
written as `null`, in its place. A value is a record with one field, which is named for
the kind of the value; not-a-number and the infinities have no digits and become `null`.
-/

namespace ClassFile

/-- How double precision is written: with a point from `0.00001` up to, and without,
ten quadrillions. -/
def Json.doubleStyle : Decimal.Style where
  least := -5
  greatest := 15
  plus := true
  tie := .even
  nan := "null"
  infinity _ := "null"

/-- How single precision is written: with a point from `0.000001` up to, and without,
ten trillions. -/
def Json.singleStyle : Decimal.Style where
  least := -6
  greatest := 12
  plus := true
  tie := .even
  nan := "null"
  infinity _ := "null"

/-- A type by its name with dots. -/
def TypeName.toJson (type : TypeName) : Json := .string type.dotted

/-- A package by its name with dots. -/
def Package.toJson (package : Package) : Json := .string package.dotted

/-- The access flags as one number. -/
def Access.toJson (access : Access) : Json := .nat access.toNat

/-- The name of a retention. -/
def Retention.toJson : Retention → Json
  | .runtime => .string "runtime"
  | .compiled => .string "class"

/-- The name of a site. -/
def Site.toJson : Site → Json
  | .type => .string "type"
  | .field => .string "field"
  | .method => .string "method"
  | .constructor => .string "constructor"
  | .parameter => .string "parameter"

/-- An annotation, of which the elements are given already. -/
def Annotation.fieldsToJson (type : TypeName) (retention : Retention) (site : Site)
    (elements : List (String × Json)) : Json :=
  .object
    [("name", type.toJson), ("retention", retention.toJson), ("element_kind", site.toJson),
      ("elements", .object elements)]

namespace Value

mutual

/-- A value, under the name of its kind. -/
def toJson : Value → Json
  | .int value => .object [("int", .int value.toInt)]
  | .long value => .object [("long", .int value.toInt)]
  | .float bits =>
    .object [("float", .number (Json.singleStyle.render .single bits.toNat))]
  | .double bits =>
    .object [("double", .number (Json.doubleStyle.render .double bits.toNat))]
  | .boolean value => .object [("boolean", .bool value)]
  | .string text => .object [("string", .string text)]
  | .enumConstant type name =>
    .object [("enum", .object [("type_ref", type.toJson), ("constant", .string name)])]
  | .classLiteral type => .object [("class", type.toJson)]
  | .nested type retention site elements =>
    .object [("annotation", Annotation.fieldsToJson type retention site
      (elementsToJson elements))]
  | .array items => .object [("array", .array (itemsToJson items))]

/-- The items of a list. -/
def itemsToJson : List Value → List Json
  | [] => []
  | item :: rest => item.toJson :: itemsToJson rest

/-- The elements of an annotation, by their names. -/
def elementsToJson : List (String × Value) → List (String × Json)
  | [] => []
  | (name, value) :: rest => (name, value.toJson) :: elementsToJson rest

end

end Value

/-- An annotation with its elements in order. -/
def Annotation.toJson (found : Annotation) : Json :=
  Annotation.fieldsToJson found.type found.retention found.site
    (Value.elementsToJson found.elements)

/-- What is particular to a kind of member. -/
def MemberKind.fieldsToJson : MemberKind → List (String × Json)
  | .field => [("kind", .string "field")]
  | .method prototype =>
    [("kind", .string "method"), ("prototype", .list TypeName.toJson prototype)]
  | .supertype type implemented =>
    [("kind", .string "type"), ("type_ref", type.toJson), ("implements", .bool implemented)]

/-- A member. -/
def Member.toJson (member : Member) : Json :=
  .object
    ([("access", member.access.toJson), ("name", .string member.name),
      ("descriptor", .string member.descriptor),
      ("signature", .option .string member.signature),
      ("constant", .option Value.toJson member.constant),
      ("annotations", .list Annotation.toJson member.annotations.toList),
      ("deprecated", .bool member.deprecated)] ++ member.kind.fieldsToJson)

/-- An entry of the table of nested classes. -/
def InnerClass.toJson (entry : InnerClass) : Json :=
  .object
    [("inner", .option TypeName.toJson entry.inner),
      ("outer", .option TypeName.toJson entry.outer),
      ("simple_name", .option .string entry.simpleName), ("access", entry.access.toJson)]

/-- Where a local class stands. -/
def EnclosingMethod.toJson (place : EnclosingMethod) : Json :=
  .object
    [("class", place.type.toJson), ("method_name", .option .string place.name),
      ("descriptor", .option .string place.descriptor)]

/-- A set of packages in the order of their names. -/
def PackageSet.toJson (packages : PackageSet) : Json :=
  .list Package.toJson packages.toList

/-- A set of types in the order of their names. -/
def TypeSet.toJson (types : TypeSet) : Json :=
  .list TypeName.toJson types.toList

/-- All that is known about a class. -/
def Record.toJson (record : Record) : Json :=
  .object
    [("class_name", record.name.toJson), ("major", .nat record.major.toNat),
      ("minor", .nat record.minor.toNat), ("access", record.access.toJson),
      ("inner_access", .option Access.toJson record.innerAccess),
      ("super_class", .option TypeName.toJson record.superclass),
      ("interfaces", .list TypeName.toJson record.interfaces),
      ("fields", .list Member.toJson record.fields.toList),
      ("methods", .list Member.toJson record.methods.toList),
      ("source_file", .option .string record.sourceFile),
      ("class_signature", .option .string record.signature),
      ("class_annotations", .list Annotation.toJson record.annotations.toList),
      ("annotations", TypeSet.toJson record.annotationTypes),
      ("deprecated", .bool record.deprecated),
      ("has_runtime_annotations", .bool record.runtimeAnnotations),
      ("has_class_annotations", .bool record.compiledAnnotations),
      ("has_default_constructor", .bool record.defaultConstructor),
      ("imports", PackageSet.toJson record.imports),
      ("xref", TypeSet.toJson record.references),
      ("api", .option PackageSet.toJson record.api),
      ("inner_classes", .list InnerClass.toJson record.innerClasses.toList),
      ("enclosing_method", .option EnclosingMethod.toJson record.enclosingMethod)]

end ClassFile
