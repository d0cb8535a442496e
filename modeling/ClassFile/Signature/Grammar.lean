import ClassFile.Signature.Scan

/-!
# Signatures as trees

The types that a descriptor or generic signature writes down, and how they are written:

```text
shape    ::= type type* | '(' type* ')' type
type     ::= primitive | '[' type | 'T' name ';' | 'L' class ';'
class    ::= name arguments? | class '.' name arguments?
arguments ::= '<' argument argument* '>'
argument ::= '*' | type | '+' type | '-' type
```

This is narrower than what the scanner of `ClassFile.Signature.scan` accepts: it is
what a compiler writes. Of a tree one can say which classes it names, in the order in
which their names end, and how deep its arguments nest.
-/

namespace ClassFile.Signature

/-- The name of a class or of a type variable: it is not empty, and has none of the
characters that end a name. -/
structure Identifier where
  chars : List Char
  ne_nil : chars ≠ []
  unmarked : ∀ c ∈ chars, c ≠ ';' ∧ c ≠ '<' ∧ c ≠ '.'

/-- A type that is a single letter. -/
inductive Primitive where
  | byte
  | char
  | double
  | float
  | int
  | long
  | short
  | boolean
  | void
  deriving DecidableEq, Repr

/-- The letter of a primitive type. -/
def Primitive.letter : Primitive → Char
  | .byte => 'B'
  | .char => 'C'
  | .double => 'D'
  | .float => 'F'
  | .int => 'I'
  | .long => 'J'
  | .short => 'S'
  | .boolean => 'Z'
  | .void => 'V'

/-- How the type of an argument is meant. -/
inductive Variance where
  | exactly
  /-- Any subtype. -/
  | covariant
  /-- Any supertype. -/
  | contravariant
  deriving DecidableEq, Repr

/-- The mark of a variance. -/
def Variance.chars : Variance → List Char
  | .exactly => []
  | .covariant => ['+']
  | .contravariant => ['-']

mutual

/-- A type. -/
inductive TypeTree where
  | primitive (type : Primitive)
  | array (element : TypeTree)
  | variable (name : Identifier)
  | object (named : ClassTree)

/-- A class with its type arguments, if it has any. -/
inductive ClassTree where
  | outermost (name : Identifier) (arguments : List Argument)
  /-- A class inside of another. -/
  | inner (outer : ClassTree) (name : Identifier) (arguments : List Argument)

/-- A type argument. -/
inductive Argument where
  /-- Any type at all. -/
  | any
  | type (variance : Variance) (type : TypeTree)

end

/-- Puts what is written of type arguments into brackets, if there are any. -/
def bracketed (arguments : List Argument) (chars : List Char) : List Char :=
  match arguments with
  | [] => []
  | _ :: _ => '<' :: (chars ++ ['>'])

/-- How deep type arguments nest, given how deep those in them do. -/
def nested (arguments : List Argument) (depth : Nat) : Nat :=
  match arguments with
  | [] => 0
  | _ :: _ => depth + 1

mutual

/-- How a type is written. -/
def TypeTree.chars : TypeTree → List Char
  | .primitive type => [type.letter]
  | .array element => '[' :: element.chars
  | .variable name => 'T' :: (name.chars ++ [';'])
  | .object named => 'L' :: (named.chars ++ [';'])

/-- How a class is written. -/
def ClassTree.chars : ClassTree → List Char
  | .outermost name arguments => name.chars ++ bracketed arguments (argumentChars arguments)
  | .inner outer name arguments =>
    outer.chars ++ '.' :: (name.chars ++ bracketed arguments (argumentChars arguments))

/-- How a type argument is written. -/
def Argument.chars : Argument → List Char
  | .any => ['*']
  | .type variance type => variance.chars ++ type.chars

/-- How type arguments are written, one after the other. -/
def argumentChars : List Argument → List Char
  | [] => []
  | argument :: rest => argument.chars ++ argumentChars rest

end

/-- The name by which a class is found: that of a class inside of another follows a
dollar sign. -/
def ClassTree.name : ClassTree → List Char
  | .outermost name _ => name.chars
  | .inner outer name _ => outer.name ++ '$' :: name.chars

theorem ClassTree.name_ne_nil (named : ClassTree) : named.name ≠ [] := by
  cases named with
  | outermost name _ => exact name.ne_nil
  | inner outer name _ => simp [ClassTree.name]

mutual

/-- The classes that a type names, those of its arguments first. -/
def TypeTree.names : TypeTree → List String
  | .primitive _ => []
  | .array element => element.names
  | .variable _ => []
  | .object named => named.argumentsNames ++ [String.ofList named.name]

/-- The classes that the arguments of a class name. -/
def ClassTree.argumentsNames : ClassTree → List String
  | .outermost _ arguments => argumentNames arguments
  | .inner outer _ arguments => outer.argumentsNames ++ argumentNames arguments

/-- The classes that a type argument names. -/
def Argument.names : Argument → List String
  | .any => []
  | .type _ type => type.names

/-- The classes that type arguments name. -/
def argumentNames : List Argument → List String
  | [] => []
  | argument :: rest => argument.names ++ argumentNames rest

end

mutual

/-- How deep the arguments in a type nest. -/
def TypeTree.depth : TypeTree → Nat
  | .primitive _ => 0
  | .array element => element.depth
  | .variable _ => 0
  | .object named => named.depth

/-- How deep the arguments of a class nest. -/
def ClassTree.depth : ClassTree → Nat
  | .outermost _ arguments => nested arguments (argumentDepth arguments)
  | .inner outer _ arguments => max outer.depth (nested arguments (argumentDepth arguments))

/-- How deep the arguments in a type argument nest. -/
def Argument.depth : Argument → Nat
  | .any => 0
  | .type _ type => type.depth

/-- How deep the arguments in type arguments nest. -/
def argumentDepth : List Argument → Nat
  | [] => 0
  | argument :: rest => max argument.depth (argumentDepth rest)

end

/-- How deep the type arguments in some types nest. -/
def deepest (types : List TypeTree) : Nat := (types.map TypeTree.depth).foldr max 0

/-- All of a descriptor or signature without formal type parameters. -/
inductive Shape where
  /-- Types one after the other, at least one. -/
  | types (first : TypeTree) (rest : List TypeTree)
  /-- The parameters and the result of a method. -/
  | method (parameters : List TypeTree) (result : TypeTree)

namespace Shape

/-- How a shape is written. -/
def chars : Shape → List Char
  | .types first rest => first.chars ++ rest.flatMap TypeTree.chars
  | .method parameters result => '(' :: (parameters.flatMap TypeTree.chars ++ ')' :: result.chars)

/-- The text of a shape. -/
def text (shape : Shape) : String := String.ofList shape.chars

/-- The classes that a shape names. -/
def names : Shape → List String
  | .types first rest => first.names ++ rest.flatMap TypeTree.names
  | .method parameters result => parameters.flatMap TypeTree.names ++ result.names

/-- How deep the type arguments in a shape nest. -/
def depth : Shape → Nat
  | .types first rest => max first.depth (deepest rest)
  | .method parameters result => max (deepest parameters) result.depth

end Shape

end ClassFile.Signature
