import ClassFile.Signature.Grammar

/-!
# Generic signatures as trees

What generic declarations write in addition to types (`ClassFile.Signature.Shape`): the formal type
parameters in front of the signature of a class or method, and the exceptions behind that of a
method.

```text
formals ::= '<' formal* '>'
formal  ::= name ':' bound? ( ':' bound )*
method  ::= '(' type* ')' type ( '^' bound )*
bound   ::= 'L' class ';' | 'T' name ';'
```

A formal type parameter may do without a bound: then it is as if it had `java/lang/Object`.
-/

namespace ClassFile.Signature

/-- What bounds a type parameter, or is thrown: a class or a type variable. -/
inductive NamedType where
  | variable (name : Identifier)
  | object (named : ClassTree)

/-- Such a type among all types. -/
def NamedType.type : NamedType → TypeTree
  | .variable name => .variable name
  | .object named => .object named

/-- A class without arguments. -/
def ClassTree.plain (text : String) (h : text.toList ≠ [] ∧
    ∀ c ∈ text.toList, c ≠ ';' ∧ c ≠ '<' ∧ c ≠ '.') : ClassTree :=
  .outermost ⟨text.toList, h.1, h.2⟩ []

/-- The name of a formal type parameter: it is not empty, and has no character that a signature
uses for something else. -/
structure ParameterName where
  chars : List Char
  ne_nil : chars ≠ []
  unmarked : ∀ c ∈ chars, c ∉ ['.', ';', '[', '/', '<', '>', ':']

/-- A formal type parameter. -/
structure Formal where
  name : ParameterName
  /-- The class that bounds it. -/
  classBound : Option NamedType := none
  /-- The interfaces that bound it. -/
  interfaceBounds : List NamedType := []

namespace Formal

/-- Its bounds, as they stand in the text. -/
def bounds (formal : Formal) : List TypeTree :=
  (formal.classBound.toList ++ formal.interfaceBounds).map NamedType.type

/-- How it is written. -/
def chars (formal : Formal) : List Char :=
  formal.name.chars ++ ':' :: (formal.classBound.toList.flatMap (·.type.chars) ++
    formal.interfaceBounds.flatMap (':' :: ·.type.chars))

/-- The classes that its bounds name. -/
def names (formal : Formal) : List String := formal.bounds.flatMap TypeTree.names

/-- How deep the type arguments in its bounds nest. -/
def depth (formal : Formal) : Nat := deepest formal.bounds

/-- It has a bound, of a class or of an interface. -/
def Bounded (formal : Formal) : Prop := formal.bounds ≠ []

instance (formal : Formal) : Decidable formal.Bounded :=
  inferInstanceAs (Decidable (¬formal.bounds = []))

end Formal

/-- How formal type parameters are written. -/
def formalsChars (formals : List Formal) : List Char :=
  '<' :: (formals.flatMap Formal.chars ++ ['>'])

/-- The signature of a method without type parameters of its own. -/
structure MethodTree where
  parameters : List TypeTree
  result : TypeTree
  /-- The exceptions that it throws. -/
  thrown : List NamedType := []

namespace MethodTree

/-- What is in front of the exceptions. -/
def shape (method : MethodTree) : Shape := .method method.parameters method.result

/-- How it is written. -/
def chars (method : MethodTree) : List Char :=
  method.shape.chars ++ method.thrown.flatMap ('^' :: ·.type.chars)

/-- The text of it. -/
def text (method : MethodTree) : String := String.ofList method.chars

end MethodTree

end ClassFile.Signature
