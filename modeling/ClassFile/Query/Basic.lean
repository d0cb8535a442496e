import ClassFile.Query.Pattern
import ClassFile.Query.Property
import ClassFile.Record.Basic

/-!
# Queries

A query is a property with a pattern. One record may settle it (`Query.verdict?`); where
it does not, the superclass is asked (`ClassFile.Query.Ancestry`).

A negated pattern settles the query with "no" where its glob selects a name. It makes
nothing of a name that the glob does not select: the name, the version and the
annotations of a class settle the query with "no" then, and for ancestors, interfaces
and packages the superclass is asked.
-/

namespace ClassFile

/-- What is wrong with the text of a query. -/
inductive QueryFault where
  | unknown (word : String)
  | missingPattern (property : Property)
  deriving DecidableEq, Repr

/-- What is said about a query that cannot be read. -/
def QueryFault.message : QueryFault → String
  | unknown word => "unknown query " ++ Text.quoted word
  | missingPattern property => "query " ++ property.word ++ " needs a pattern"

/-- A property, and the pattern that it is about. -/
structure Query where
  property : Property
  pattern : Pattern
  deriving DecidableEq, Repr

namespace Query

/-- The query that a word and a pattern ask. A property that needs no pattern ignores
the one that it is given. -/
def parse (word : String) (pattern : Option String) : Except QueryFault Query :=
  match Property.ofWord? word with
  | none => .error (.unknown word)
  | some property =>
    match pattern with
    | some source => .ok ⟨property, ⟨source⟩⟩
    | none =>
      if property.needsPattern then .error (.missingPattern property)
      else .ok ⟨property, .all⟩

/-- The word of the property, followed by the pattern if the property needs one. -/
def describe (query : Query) : String :=
  if query.property.needsPattern then query.property.word ++ " " ++ query.pattern.source
  else query.property.word

/-- What a name that the glob selects means: yes, or no if the pattern is negated. -/
def whenSelected (query : Query) : Bool := !query.pattern.isNegated

/-- Settles a query where some of the names is selected. -/
def settledBy (query : Query) (names : List String) : Option Bool :=
  if names.any query.pattern.accepts then some query.whenSelected else none

/-- What one record says about a query; `none` leaves it to the superclass. -/
def verdict? (query : Query) (record : Record) : Option Bool :=
  match query.property with
  | .any => some true
  | .named => some (query.pattern.accepts record.name.dotted && query.whenSelected)
  | .version => some (query.pattern.accepts record.version && query.whenSelected)
  | .annotated =>
    some ((record.annotationTypes.toList.map TypeName.sourceName).any query.pattern.accepts &&
      query.whenSelected)
  | .isPublic => some record.access.isPublic
  | .isAbstract => some record.access.isAbstract
  | .isConcrete => some !record.access.isAbstract
  | .defaultConstructor => some record.defaultConstructor
  | .runtimeAnnotations => some record.runtimeAnnotations
  | .compiledAnnotations => some record.compiledAnnotations
  | .implementing => query.settledBy (record.interfaces.map TypeName.dotted)
  | .extending =>
    match record.superclass with
    | none => some false
    | some superclass => query.settledBy [superclass.dotted]
  | .importing => query.settledBy (record.imports.toList.map Package.dotted)

end Query

end ClassFile
