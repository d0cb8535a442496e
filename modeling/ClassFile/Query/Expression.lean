import ClassFile.Query.Pattern

/-!
# Patterns as regular expressions

A pattern is put to a name by way of a regular expression: `.*` for a run, `.` for one character,
the character itself for any other, and an anchor at either end. Where the glob ends in `.*`, these
two characters become a group that may be left out, `(?:\..*)?`.

`Expression.Spans` says which piece of a text an expression matches, given what stands on both sides
of it; the anchors are about the sides alone. A search looks for any such piece
(`Expression.FoundIn`), and it is the anchors that leave it the whole text. A dot does not match a
line feed, nor does the anchor at the end match in front of one.
-/

namespace ClassFile

/-- A regular expression, of the kinds that patterns are put to names by. -/
inductive Expression where
  /-- Nothing is matched, wherever it is. -/
  | empty
  /-- The start of the text. -/
  | atStart
  /-- The end of the text. -/
  | atEnd
  | literal (c : Char)
  /-- Any one character but a line feed. -/
  | dot
  /-- Any number of times, one after the other. -/
  | star (inner : Expression)
  /-- Once, or not at all. -/
  | optional (inner : Expression)
  | seq (first second : Expression)
  deriving DecidableEq, Repr

namespace Expression

/-- Which pieces of a text an expression matches, between what stands before and behind. -/
inductive Spans : Expression → (before piece behind : List Char) → Prop where
  | empty {before behind : List Char} : Spans .empty before [] behind
  | atStart {behind : List Char} : Spans .atStart [] [] behind
  | atEnd {before : List Char} : Spans .atEnd before [] []
  | literal {c : Char} {before behind : List Char} : Spans (.literal c) before [c] behind
  | dot {c : Char} {before behind : List Char} : c ≠ '\n' → Spans .dot before [c] behind
  /-- A repetition is over. -/
  | stop {inner : Expression} {before behind : List Char} : Spans (.star inner) before [] behind
  /-- A repetition goes on. -/
  | more {inner : Expression} {before piece rest behind : List Char} :
    Spans inner before piece (rest ++ behind) → Spans (.star inner) (before ++ piece) rest behind →
    Spans (.star inner) before (piece ++ rest) behind
  | absent {inner : Expression} {before behind : List Char} :
    Spans (.optional inner) before [] behind
  | present {inner : Expression} {before piece behind : List Char} :
    Spans inner before piece behind → Spans (.optional inner) before piece behind
  | seq {first second : Expression} {before piece rest behind : List Char} :
    Spans first before piece (rest ++ behind) → Spans second (before ++ piece) rest behind →
    Spans (.seq first second) before (piece ++ rest) behind

/-- A search for the expression in a text succeeds. -/
def FoundIn (expression : Expression) (text : List Char) : Prop :=
  ∃ before piece behind, text = before ++ piece ++ behind ∧ expression.Spans before piece behind

/-- What is put for one character of a glob. -/
def ofChar (c : Char) : Expression :=
  if c = '*' then .star .dot else if c = '?' then .dot else .literal c

/-- What is put for a glob. -/
def ofGlob (chars : List Char) : Expression :=
  chars.foldr (fun c rest => .seq (ofChar c) rest) .empty

/-- The expression that has to match a whole text. -/
def anchored (expression : Expression) : Expression :=
  .seq .atStart (.seq expression .atEnd)

end Expression

namespace Pattern

/-- What may follow the stem of a pattern: a dot, and anything behind it. -/
def below : Expression := .optional (.ofGlob ['.', '*'])

/-- The expression by which a pattern is put to a name. -/
def expression (pattern : Pattern) : Expression :=
  .anchored (match stem? pattern.body with
    | some stem => .seq (.ofGlob stem) below
    | none => .ofGlob pattern.body)

end Pattern

end ClassFile
