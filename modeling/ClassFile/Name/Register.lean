import ClassFile.Name.Package
import Std.Data.ExtTreeMap

/-!
# Registers of names

Types and packages are handed out by a register, so that whoever shares it gets the same one for the
same name. It keeps two tables: the types by their binary names, and the packages by theirs, with
the package of the primitive types under a key of its own, `PackageTable.primitiveKey`. What is not
in its table is made and filed when it is first requested.

A client makes one request after the other (`Request.serve`). A namer serves requests as well: it
keeps no types, and of the packages what is filed under that one key.
-/

namespace ClassFile

/-- What can be requested: the type of a text, be it a binary name, a descriptor or a name with
dots, and the package of a type. -/
inductive Request where
  | type (text : String)
  | dottedType (text : String)
  | package (type : TypeName)
  deriving DecidableEq, Repr

/-- What is handed out. -/
inductive Handout where
  | type (type : TypeName)
  | package (package : Package)
  deriving DecidableEq, Repr

/-- What belongs to a request itself, whatever was requested before. -/
def Request.plain : Request → Handout
  | .type text => .type (.ofText text)
  | .dottedType text => .type (.ofDotted text)
  | .package named => .package (.ofType named)

/-- Requests are answered one after the other. -/
def Request.serve {σ : Type} (answer : Request → σ → Handout × σ) :
    List Request → σ → List Handout × σ
  | [], state => ([], state)
  | request :: rest, state =>
    let (first, state) := answer request state
    let (answers, state) := serve answer rest state
    (first :: answers, state)

/-- The key under which a package is filed. -/
def Package.key (package : Package) : String :=
  if package.primitive then PackageTable.primitiveKey else package.binary

theorem Package.key_eq_primitiveKey_iff {package : Package} :
    package.key = PackageTable.primitiveKey ↔
      package.primitive = true ∨ package.binary = PackageTable.primitiveKey := by
  rw [key]
  split <;> simp [*]

/-- What was handed out, by the keys under which it is filed. -/
structure Register where
  types : Std.ExtTreeMap String TypeName := ∅
  packages : Std.ExtTreeMap String Package := ∅

namespace Register

/-- A register before the first request. -/
def empty : Register := {}

/-- What is filed under a key; if there is nothing, this is filed now. -/
def lookUp {α : Type} (table : Std.ExtTreeMap String α) (key : String) (fresh : α) :
    α × Std.ExtTreeMap String α :=
  match table[key]? with
  | some filed => (filed, table)
  | none => (fresh, table.insert key fresh)

/-- The type that a binary name or an object descriptor names. -/
def typeOf (text : String) (register : Register) : TypeName × Register :=
  let type := TypeName.ofText text
  let (filed, types) := lookUp register.types type.binary type
  (filed, { register with types })

/-- The type that a name with dots names. -/
def typeOfDotted (text : String) (register : Register) : TypeName × Register :=
  register.typeOf (TypeName.slashed text)

/-- The package of a type. -/
def packageOf (type : TypeName) (register : Register) : Package × Register :=
  let package := Package.ofType type
  let (filed, packages) := lookUp register.packages package.key package
  (filed, { register with packages })

/-- Answers a request. -/
def answer (request : Request) (register : Register) : Handout × Register :=
  match request with
  | .type text => (register.typeOf text).map .type id
  | .dottedType text => (register.typeOfDotted text).map .type id
  | .package type => (register.packageOf type).map .package id

end Register

/-- Answers a request where packages are handed out by a namer. -/
def Namer.answer (namer : Namer) (request : Request) (table : PackageTable) :
    Handout × PackageTable :=
  match request with
  | .package type => (namer.packageOf type table).map .package id
  | _ => (request.plain, table)

end ClassFile
