import ClassFile.Access
import ClassFile.Annotation
import ClassFile.Name.Package
import ClassFile.Release
import ClassFile.Signature.Method

/-!
# The record of a class

What one decoding of a class file learns: the header, the members with what their
attributes say, the types that are referred to anywhere, the packages of those types,
and the packages that the visible part of the class exposes.
-/

namespace ClassFile

/-- What a member is, with what only that kind of member has. -/
inductive MemberKind where
  | field
  | method (prototype : List TypeName)
  /-- A stand-in for the superclass, or for an interface if `implemented`. -/
  | supertype (type : TypeName) (implemented : Bool)
  deriving DecidableEq, Repr

/-- A field or a method, or a stand-in for a supertype. -/
structure Member where
  kind : MemberKind
  access : Access
  name : String
  descriptor : String
  signature : Option String := none
  constant : Option Value := none
  annotations : Array Annotation := #[]
  deprecated : Bool := false

namespace Member

/-- A field before its attributes are read. -/
def field (access : Access) (name descriptor : String) : Member where
  kind := .field
  access
  name
  descriptor

/-- A method before its attributes are read. -/
def method (access : Access) (name descriptor : String) (prototype : List TypeName) : Member where
  kind := .method prototype
  access
  name
  descriptor

/-- The stand-in for a superclass. -/
def superclass (type : TypeName) : Member where
  kind := .supertype type false
  access := Access.publicBit
  name := "<extends>"
  descriptor := "L" ++ type.binary ++ ";"

/-- The stand-in for an interface. -/
def interface (type : TypeName) : Member where
  kind := .supertype type true
  access := Access.publicBit
  name := "<implements>"
  descriptor := "L" ++ type.binary ++ ";"

/-- Whether the member makes or prepares instances: a constructor or a class
initializer. -/
def isConstructor (member : Member) : Bool :=
  match member.kind with
  | .method _ => member.name = "<init>" || member.name = "<clinit>"
  | _ => false

/-- The argument types of a method. -/
def prototype? (member : Member) : Option (List TypeName) :=
  match member.kind with
  | .method prototype => some prototype
  | _ => none

/-- The supertype that the member stands for. -/
def supertype? (member : Member) : Option TypeName :=
  match member.kind with
  | .supertype type _ => some type
  | _ => none

/-- The return type as it is written in source code, from the generic signature if
there is one. Only methods have one. -/
def returnType (member : Member) : Except Fault String :=
  Signature.returnType (member.signature.getD member.descriptor)

end Member

/-- An entry of the table of nested classes. -/
structure InnerClass where
  inner : Option TypeName
  outer : Option TypeName
  simpleName : Option String
  access : Access
  deriving DecidableEq, Repr

/-- Where a local or anonymous class stands. -/
structure EnclosingMethod where
  type : TypeName
  name : Option String
  descriptor : Option String
  deriving DecidableEq, Repr

/-- What is known about a class. -/
structure Record where
  name : TypeName
  major : UInt16
  minor : UInt16
  access : Access
  /-- The flags in the class's own entry of its table of nested classes. -/
  innerAccess : Option Access := none
  superclass : Option TypeName := none
  interfaces : List TypeName := []
  fields : Array Member := #[]
  methods : Array Member := #[]
  sourceFile : Option String := none
  signature : Option String := none
  /-- The annotations on the class itself. -/
  annotations : Array Annotation := #[]
  /-- The types of all annotations anywhere in the class. -/
  annotationTypes : TypeSet := ∅
  deprecated : Bool := false
  /-- Whether some annotation is visible at run time. -/
  runtimeAnnotations : Bool := false
  /-- Whether some annotation is visible in the class file only. -/
  compiledAnnotations : Bool := false
  /-- Whether there is a public constructor without arguments. -/
  defaultConstructor : Bool := false
  /-- The packages of the types that are referred to. -/
  imports : PackageSet := ∅
  /-- The types that are referred to. -/
  references : TypeSet := ∅
  /-- The packages that the visible part exposes; only a public class has one. -/
  api : Option PackageSet := none
  innerClasses : Array InnerClass := #[]
  enclosingMethod : Option EnclosingMethod := none

namespace Record

/-- A record of which only the header is known. -/
def header (name : TypeName) (major minor : UInt16) (access : Access) : Record where
  name
  major
  minor
  access
  api := if access.isPublic then some ∅ else none

/-- Major and minor version with a dot between them. -/
def version (record : Record) : String :=
  toString record.major.toNat ++ "." ++ toString record.minor.toNat

/-- The release that the class is made for. -/
def release (record : Record) : Release := .ofMajor record.major

/-- The flags that hold for users of the class: those of a nested class stand in its
own entry of the table of nested classes. -/
def effectiveAccess (record : Record) : Access := record.innerAccess.getD record.access

/-- The packages that the visible part exposes; none for a class that is not public. -/
def apiUses (record : Record) : PackageSet := record.api.getD ∅

/-- Whether the class is an enumeration. -/
def isEnum (record : Record) : Bool :=
  record.superclass = some ⟨"java/lang/Enum"⟩

/-- The stand-ins for the superclass, if any, and for the interfaces. -/
def supertypes (record : Record) : List Member :=
  (record.superclass.map Member.superclass).toList ++ record.interfaces.map Member.interface

end Record

end ClassFile
