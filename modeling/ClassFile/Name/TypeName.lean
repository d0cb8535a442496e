import Std.Data.ExtTreeSet

/-!
# Names of types

A type is known by its binary name: `java/util/Map$Entry` for a class, one letter for
a primitive type, `[I` or `[Ljava/lang/String;` for an array. Nothing checks a name,
so every text is one.

A name is often met in its descriptor form `Ljava/lang/String;`. One such enclosure is
taken off when a name is made from a text, and one more when the element of an array is
asked for; a second enclosure is part of the name.
-/

namespace ClassFile

/-- A type, by its binary name. -/
structure TypeName where
  binary : String
  deriving DecidableEq, Repr

namespace TypeName

/-- Types are ordered by their binary names. -/
instance : Ord TypeName := ⟨compareOn TypeName.binary⟩

instance : Std.TransOrd TypeName :=
  inferInstanceAs (Std.TransCmp (compareOn TypeName.binary))

instance : Std.LawfulEqOrd TypeName where
  eq_of_compare {a b} h := by
    have hbinary : a.binary = b.binary := Std.LawfulEqOrd.eq_of_compare h
    cases a; cases b
    simp_all

/-- Takes one enclosure `L…;` off a text. -/
def unwrapped : List Char → List Char
  | 'L' :: rest => if rest.getLast? = some ';' then rest.dropLast else 'L' :: rest
  | chars => chars

/-- The type that a binary name or an object descriptor names. -/
def ofText (text : String) : TypeName :=
  ⟨String.ofList (unwrapped text.toList)⟩

/-- Puts slashes for dots. -/
def slashed (text : String) : String :=
  String.ofList (text.toList.map fun c => if c = '.' then '/' else c)

/-- The type that a name with dots names. -/
def ofDotted (text : String) : TypeName :=
  ofText (slashed text)

/-- The name with dots for slashes; nested classes keep their `$`. -/
def dotted (type : TypeName) : String :=
  String.ofList (type.binary.toList.map fun c => if c = '/' then '.' else c)

/-- The name as it is written in source code, with a dot before nested classes too. -/
def sourceName (type : TypeName) : String :=
  String.ofList (type.binary.toList.map fun c => if c = '/' ∨ c = '$' then '.' else c)

/-- What follows the last slash. -/
def shortName (type : TypeName) : String :=
  String.ofList (type.binary.toList.reverse.takeWhile (· ≠ '/')).reverse

/-- Whether a text is the letter of a primitive type or of `void`. -/
def isPrimitiveLetter : List Char → Bool
  | [c] => "VZSIJFDBC".toList.contains c
  | _ => false

/-- Whether the type is primitive. -/
def isPrimitive (type : TypeName) : Bool :=
  isPrimitiveLetter type.binary.toList

/-- Whether the type is an array. -/
def isArray (type : TypeName) : Bool :=
  type.binary.toList.head? = some '['

/-- Whether the type lies in `java` or below it. -/
def isJava (type : TypeName) : Bool :=
  "java/".toList.isPrefixOf type.binary.toList

/-- The name of the innermost element of an array, with one enclosure taken off;
`none` for a type that is no array. -/
def element? (type : TypeName) : Option String :=
  if type.isArray then
    some (String.ofList (unwrapped (type.binary.toList.dropWhile (· = '['))))
  else none

/-- The type that a mention of this type refers to: the innermost element of an array,
and otherwise the type itself. -/
def referent (type : TypeName) : TypeName :=
  match type.element? with
  | some element => ofText element
  | none => type

theorem referent_of_not_isArray {type : TypeName} (h : type.isArray = false) :
    type.referent = type := by
  simp [referent, element?, h]

end TypeName

/-- A set of types. Two sets with the same members are equal. -/
abbrev TypeSet := Std.ExtTreeSet TypeName

end ClassFile
