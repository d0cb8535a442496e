import ClassFile.Name.TypeName

/-!
# Annotations

An annotation is a type with named values. A value may again be an annotation, or a
list of values. The elements of an annotation keep the order in which their names
first came, and a name that comes again gets the last of its values.
-/

namespace ClassFile

/-- Whether an annotation can be seen at run time, or in the class file only. -/
inductive Retention where
  | runtime
  | compiled
  deriving DecidableEq, Repr

/-- What an annotation stands on. -/
inductive Site where
  | type
  | field
  | method
  | constructor
  | parameter
  deriving DecidableEq, Repr

/-- The value of an element, or of a constant field. -/
inductive Value where
  /-- An `int`, or one of the narrower types that are stored as one. -/
  | int (value : Int32)
  | long (value : Int64)
  | float (bits : UInt32)
  | double (bits : UInt64)
  | boolean (value : Bool)
  | string (text : String)
  | enumConstant (type : TypeName) (name : String)
  | classLiteral (type : TypeName)
  /-- An annotation inside an annotation. -/
  | nested (type : TypeName) (retention : Retention) (site : Site)
      (elements : List (String × Value))
  | array (items : List Value)

/-- An annotation at its place. -/
structure Annotation where
  type : TypeName
  retention : Retention
  site : Site
  elements : List (String × Value)

namespace Annotation

/-- An annotation as the value of an element. -/
def toValue (found : Annotation) : Value :=
  .nested found.type found.retention found.site found.elements

/-- Gives a name a value: in its old place if it has one, and at the end otherwise. -/
def putElement (name : String) (value : Value) :
    List (String × Value) → List (String × Value)
  | [] => [(name, value)]
  | (other, old) :: rest =>
    if other = name then (name, value) :: rest else (other, old) :: putElement name value rest

/-- Gives an element a value. -/
def put (found : Annotation) (name : String) (value : Value) : Annotation :=
  { found with elements := putElement name value found.elements }

/-- The names after an element was put: a new one comes last, a known one stays. -/
theorem map_fst_putElement (name : String) (value : Value) (elements : List (String × Value)) :
    (putElement name value elements).map Prod.fst =
      if name ∈ elements.map Prod.fst then elements.map Prod.fst
      else elements.map Prod.fst ++ [name] := by
  induction elements with
  | nil => simp [putElement]
  | cons head rest ih =>
    by_cases h : head.1 = name
    · simp [putElement, h]
    · have h' : ¬ name = head.1 := fun he => h he.symm
      simp only [putElement, h, if_false, List.map_cons, ih, List.mem_cons, h', false_or]
      split <;> simp

end Annotation

end ClassFile
