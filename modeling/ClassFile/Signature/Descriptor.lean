import ClassFile.Signature.Grammar

/-!
# Descriptors as trees

The types of fields and methods, and how they are written:

```text
field  ::= primitive | '[' field | 'L' name ';'
method ::= '(' field* ')' ( field | 'V' )
```

In source code a type has a keyword, or the name of its class with dots, and a pair of brackets for
every dimension of an array.

A descriptor is a signature in which nothing is generic. So it is a shape as well
(`MethodDescriptor.shape`), without variables, without type arguments and without classes
that are named inside of others.
-/

namespace ClassFile.Signature

/-- The keyword of a primitive type. -/
def Primitive.keyword : Primitive → String
  | .byte => "byte"
  | .char => "char"
  | .double => "double"
  | .float => "float"
  | .int => "int"
  | .long => "long"
  | .short => "short"
  | .boolean => "boolean"
  | .void => "void"

/-- The name of a class with dots for slashes. -/
def dotted (name : List Char) : String :=
  String.ofList (name.map fun c => if c = '/' then '.' else c)

/-- The name of a class in a descriptor. It has no mark of a signature in it. -/
structure ClassName extends Identifier where
  unbracketed : ∀ c ∈ chars, c ≠ '[' ∧ c ≠ '>'

/-- The type of a field or of a parameter. -/
inductive FieldType where
  | primitive (type : Primitive) (ne_void : type ≠ .void)
  | array (element : FieldType)
  | object (name : ClassName)

namespace FieldType

/-- How the type is written. -/
def chars : FieldType → List Char
  | .primitive type _ => [type.letter]
  | .array element => '[' :: element.chars
  | .object name => 'L' :: (name.chars ++ [';'])

/-- The text of the type. -/
def text (type : FieldType) : String := String.ofList type.chars

/-- The name of the type in source code. -/
def sourceName : FieldType → String
  | .primitive type _ => type.keyword
  | .array element => element.sourceName ++ "[]"
  | .object name => dotted name.chars

/-- The class that the type names, if it names one. -/
def names : FieldType → List String
  | .primitive _ _ => []
  | .array element => element.names
  | .object name => [String.ofList name.chars]

/-- The type in a signature. -/
def tree : FieldType → TypeTree
  | .primitive type _ => .primitive type
  | .array element => .array element.tree
  | .object name => .object (.outermost name.toIdentifier [])

@[simp] theorem chars_tree (type : FieldType) : type.tree.chars = type.chars := by
  induction type with
  | primitive type ne_void => rfl
  | array element ih => simp [tree, chars, TypeTree.chars, ih]
  | object name => simp [tree, chars, TypeTree.chars, ClassTree.chars, bracketed]

@[simp] theorem names_tree (type : FieldType) : type.tree.names = type.names := by
  induction type with
  | primitive type ne_void => rfl
  | array element ih => simp [tree, names, TypeTree.names, ih]
  | object name => rfl

@[simp] theorem depth_tree (type : FieldType) : type.tree.depth = 0 := by
  induction type with
  | primitive type ne_void => rfl
  | array element ih => simp [tree, TypeTree.depth, ih]
  | object name => rfl

end FieldType

/-- The type of what a method returns. -/
inductive ReturnType where
  | void
  | value (type : FieldType)

namespace ReturnType

/-- How the type is written. -/
def chars : ReturnType → List Char
  | .void => [Primitive.void.letter]
  | .value type => type.chars

/-- The name of the type in source code. -/
def sourceName : ReturnType → String
  | .void => Primitive.void.keyword
  | .value type => type.sourceName

/-- The class that the type names, if it names one. -/
def names : ReturnType → List String
  | .void => []
  | .value type => type.names

/-- The type in a signature. -/
def tree : ReturnType → TypeTree
  | .void => .primitive .void
  | .value type => type.tree

@[simp] theorem chars_tree (result : ReturnType) : result.tree.chars = result.chars := by
  cases result <;> simp [tree, chars, TypeTree.chars]

@[simp] theorem names_tree (result : ReturnType) : result.tree.names = result.names := by
  cases result <;> simp [tree, names, TypeTree.names]

@[simp] theorem depth_tree (result : ReturnType) : result.tree.depth = 0 := by
  cases result <;> simp [tree, TypeTree.depth]

end ReturnType

/-- The types of the parameters of a method, and of what it returns. -/
structure MethodDescriptor where
  parameters : List FieldType
  result : ReturnType

namespace MethodDescriptor

/-- How the descriptor is written. -/
def chars (descriptor : MethodDescriptor) : List Char :=
  '(' :: (descriptor.parameters.flatMap FieldType.chars ++ ')' :: descriptor.result.chars)

/-- The text of the descriptor. -/
def text (descriptor : MethodDescriptor) : String := String.ofList descriptor.chars

/-- The classes that the descriptor names. -/
def names (descriptor : MethodDescriptor) : List String :=
  descriptor.parameters.flatMap FieldType.names ++ descriptor.result.names

/-- The descriptor as a signature. -/
def shape (descriptor : MethodDescriptor) : Shape :=
  .method (descriptor.parameters.map FieldType.tree) descriptor.result.tree

@[simp] theorem chars_shape (descriptor : MethodDescriptor) :
    descriptor.shape.chars = descriptor.chars := by
  simp [shape, chars, Shape.chars, List.flatMap_map]

@[simp] theorem names_shape (descriptor : MethodDescriptor) :
    descriptor.shape.names = descriptor.names := by
  simp [shape, names, Shape.names, List.flatMap_map]

@[simp] theorem depth_shape (descriptor : MethodDescriptor) : descriptor.shape.depth = 0 := by
  have hparameters : deepest (descriptor.parameters.map FieldType.tree) = 0 := by
    rw [deepest]
    induction descriptor.parameters with
    | nil => rfl
    | cons type types ih => simpa using ih
  simp [shape, Shape.depth, hparameters]

end MethodDescriptor

end ClassFile.Signature
