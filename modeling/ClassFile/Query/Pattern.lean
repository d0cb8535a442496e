import ClassFile.Query.Glob

/-!
# Patterns

A pattern selects names with dots by a glob, or by a negated glob if it starts with
`!`. A glob that ends in `.*` selects the name in front of these two characters as
well, so that `com.acme.*` selects the package and all that is in it.
-/

namespace ClassFile

/-- A pattern, by the text that it is written as. -/
structure Pattern where
  source : String
  deriving DecidableEq, Repr

namespace Pattern

/-- The pattern that selects every name without a line feed. -/
def all : Pattern := ⟨"*"⟩

/-- Whether the pattern starts with the sign of negation. -/
def isNegated (pattern : Pattern) : Bool :=
  pattern.source.toList.head? = some '!'

/-- The text of the glob. Only one sign of negation is taken off. -/
def body (pattern : Pattern) : List Char :=
  match pattern.source.toList with
  | '!' :: rest => rest
  | chars => chars

/-- What stands in front of a final `.*`. -/
def stem? (chars : List Char) : Option (List Char) :=
  match chars.reverse with
  | '*' :: '.' :: rest => some rest.reverse
  | _ => none

/-- The globs of a pattern: its own, and the one in front of a final `.*`. -/
def globs (pattern : Pattern) : List Glob :=
  Glob.ofChars pattern.body :: ((stem? pattern.body).map Glob.ofChars).toList

/-- Whether one of the globs stands for a name. Negation plays no part in it. -/
def accepts (pattern : Pattern) (name : String) : Bool :=
  pattern.globs.any fun glob => glob.accepts name.toList

theorem stem?_eq_some_iff {chars stem : List Char} :
    stem? chars = some stem ↔ chars = stem ++ ['.', '*'] := by
  constructor
  · intro h
    unfold stem? at h
    split at h
    · rename_i rest hrest
      have : chars = ('*' :: '.' :: rest).reverse := by rw [← hrest, List.reverse_reverse]
      simp_all
    · contradiction
  · rintro rfl
    simp [stem?]

end Pattern

end ClassFile
