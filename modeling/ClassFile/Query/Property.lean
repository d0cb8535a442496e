/-!
# Properties of classes

The thirteen properties that a query can ask for. Six of them need a pattern, and three
of those ask a superclass where the class itself does not settle them.

A property is named by a word. In a query the word may be written in small or capital
letters, and with hyphens or underscores anywhere.
-/

namespace ClassFile

/-- A property that a class may have. -/
inductive Property where
  /-- Every class has it. -/
  | any
  /-- The name of the class matches. -/
  | named
  /-- An interface, of the class or of an ancestor, matches. -/
  | implementing
  /-- An ancestor matches. -/
  | extending
  /-- A package that the class or an ancestor refers to matches. -/
  | importing
  /-- The type of an annotation anywhere in the class matches. -/
  | annotated
  /-- The version of the class file matches. -/
  | version
  | isPublic
  | isAbstract
  | isConcrete
  /-- There is a public constructor without arguments. -/
  | defaultConstructor
  /-- Some annotation is visible at run time. -/
  | runtimeAnnotations
  /-- Some annotation is visible in the class file only. -/
  | compiledAnnotations
  deriving DecidableEq, Repr

namespace Property

/-- All properties. -/
def all : List Property :=
  [any, named, implementing, extending, importing, annotated, version, isPublic, isAbstract,
    isConcrete, defaultConstructor, runtimeAnnotations, compiledAnnotations]

/-- The word for a property. -/
def word : Property → String
  | any => "ANY"
  | named => "NAMED"
  | implementing => "IMPLEMENTS"
  | extending => "EXTENDS"
  | importing => "IMPORTS"
  | annotated => "ANNOTATED"
  | version => "VERSION"
  | isPublic => "PUBLIC"
  | isAbstract => "ABSTRACT"
  | isConcrete => "CONCRETE"
  | defaultConstructor => "DEFAULT_CONSTRUCTOR"
  | runtimeAnnotations => "RUNTIMEANNOTATIONS"
  | compiledAnnotations => "CLASSANNOTATIONS"

/-- Whether the property is about a name that a pattern selects. -/
def needsPattern : Property → Bool
  | named | implementing | extending | importing | annotated | version => true
  | _ => false

/-- Whether a class that does not settle the property leaves it to its superclass. -/
def asksAncestors : Property → Bool
  | implementing | extending | importing => true
  | _ => false

/-- A word in capital letters without hyphens and underscores. Letters outside ASCII
stay as they are. -/
def bare (text : String) : List Char :=
  (text.toList.filter fun c => c ≠ '_' ∧ c ≠ '-').map Char.toUpper

/-- The property that a word names. -/
def ofWord? (text : String) : Option Property :=
  all.find? fun property => bare property.word = bare text

theorem mem_all (property : Property) : property ∈ all := by
  cases property <;> decide

end Property

end ClassFile
