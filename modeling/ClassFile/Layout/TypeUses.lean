import ClassFile.Layout.Values

/-!
# Uses of types

An annotation may stand on any use of a type, in a declaration or in a method body. Which use it is
on is told by the kind of the use, in one byte, by what tells it from other uses of its kind, and by
the way to a part of the type, as to the element of an array:

| kind | use | told by | |---|---|---| | `00`, `01` | a type parameter of a class, of a method | its
number | | `10` | the superclass or an interface | its number | | `11`, `12` | a bound of a type
parameter of a class, of a method | two numbers | | `13`, `14`, `15` | the type of a field, a
result, a receiver | nothing | | `16` | the type of a parameter | its number | | `17` | an exception
that is thrown | its number | | `40`, `41` | a local variable, a resource | where it is in force, in
a table | | `42` | an exception that is caught | the number of the handler | | `43` to `46` | a
test, a made object, two kinds of method references | where the instruction stands | | `47` to `4B`
| a cast, and arguments of calls and method references | the same, and a number |
-/

namespace ClassFile

/-- A use of a type. -/
inductive TypeTarget where
  | typeParameter (ofMethod : Bool) (parameter : UInt8)
  /-- The superclass has the last number. -/
  | supertype (number : UInt16)
  | bound (ofMethod : Bool) (parameter number : UInt8)
  /-- The type of a field, of a result and of a receiver. -/
  | declared (use : Fin 3)
  | formalParameter (parameter : UInt8)
  | thrown (number : UInt16)
  /-- A row has where the variable begins to be in force, how long it is, and its slot. -/
  | localVariable (isResource : Bool) (rows : List (UInt16 × UInt16 × UInt16))
  | caught (handler : UInt16)
  /-- In a test, in the making of an object, and in references to constructors and methods. -/
  | instruction (use : Fin 4) (offset : UInt16)
  /-- In a cast, in calls of constructors and methods, and in references to them. -/
  | argument (use : Fin 5) (offset : UInt16) (number : UInt8)

namespace TypeTarget

/-- The kind of a use. -/
def kind : TypeTarget → UInt8
  | .typeParameter ofMethod _ => if ofMethod then 0x01 else 0x00
  | .supertype _ => 0x10
  | .bound ofMethod _ _ => if ofMethod then 0x12 else 0x11
  | .declared use => .ofNat (0x13 + use)
  | .formalParameter _ => 0x16
  | .thrown _ => 0x17
  | .localVariable isResource _ => if isResource then 0x41 else 0x40
  | .caught _ => 0x42
  | .instruction use _ => .ofNat (0x43 + use)
  | .argument use _ _ => .ofNat (0x47 + use)

/-- A row of the table of a local variable. -/
def rowForm : Form (UInt16 × UInt16 × UInt16) :=
  Form.u2.andThen fun _ => Form.u2.andThen fun _ => Form.u2

/-- What tells a use from others of its kind. -/
def info : TypeTarget → Bytes
  | .typeParameter _ parameter | .formalParameter parameter => Form.u1.encode parameter
  | .supertype number | .thrown number | .caught number => Form.u2.encode number
  | .bound _ parameter number => Form.u1.encode parameter ++ Form.u1.encode number
  | .declared _ => []
  | .localVariable _ rows => rowForm.table.encode rows
  | .instruction _ offset => Form.u2.encode offset
  | .argument _ offset number => Form.u2.encode offset ++ Form.u1.encode number

/-- The rows of a table can be counted in two bytes. -/
def Fits : TypeTarget → Prop
  | .localVariable _ rows => rowForm.table.Fits rows
  | _ => True

end TypeTarget

/-- An annotation on a use of a type. A step on the way to a part of the type has a kind and the
number of a type argument. -/
structure TypeUse where
  target : TypeTarget
  path : List (UInt8 × UInt8)
  annotation : RawAnnotation

namespace TypeUse

/-- A step on the way to a part of a type. -/
def stepForm : Form (UInt8 × UInt8) := Form.u1.andThen fun _ => Form.u1

/-- The use stands in front of the annotation. The annotation may have any number of levels. -/
def form : Form TypeUse where
  encode use := Form.u1.encode use.target.kind ++ (use.target.info ++
    (stepForm.shortTable.encode use.path ++ RawAnnotation.wholeForm.encode use.annotation))
  Fits use := use.target.Fits ∧ stepForm.shortTable.Fits use.path

/-- The annotation as it is read: the use is not looked into. -/
def raw (use : TypeUse) : RawTypeAnnotation where
  target := use.target.kind
  info := use.target.info
  path := use.path.flatMap stepForm.encode
  annotation := use.annotation

end TypeUse

/-- The annotation stands for one, by the pool, and there are no more levels in it than may be
entered. -/
def RawAnnotation.WellFormed (pool : Pool) (site : Site) (retention : Retention)
    (raw : RawAnnotation) : Prop :=
  (∃ found, raw.StandsFor pool site retention found) ∧
    ∀ element ∈ raw.elements, element.2.depth ≤ nestingLimit

end ClassFile
