import ClassFile.Text.Quoted

/-!
# JSON

Values with their fields in a fixed order, and two ways to write them: all in one line,
or one element a line with two blanks of indentation a level. An empty list or record
is written without a line break. Numbers are kept as the text that stands for them, for
what digits a number gets is decided where the number comes from.

In a string the quote, the backslash and the controls are escaped, and nothing else.
-/

namespace ClassFile

/-- A JSON value. -/
inductive Json where
  | null
  | bool (value : Bool)
  | number (digits : String)
  | string (text : String)
  | array (items : List Json)
  | object (fields : List (String × Json))
  deriving Inhabited

namespace Json

/-- A natural number. -/
def nat (n : Nat) : Json := .number (toString n)

/-- An integer. -/
def int (n : Int) : Json := .number (toString n)

/-- A value, or nothing. -/
def option {α : Type} (f : α → Json) : Option α → Json
  | none => .null
  | some value => f value

/-- A list of values. -/
def list {α : Type} (f : α → Json) (items : List α) : Json :=
  .array (items.map f)

/-- How one character is written in a string. -/
def escapeChar (c : Char) : List Char :=
  match c with
  | '"' => ['\\', '"']
  | '\\' => ['\\', '\\']
  | '\n' => ['\\', 'n']
  | '\r' => ['\\', 'r']
  | '\t' => ['\\', 't']
  | '\x08' => ['\\', 'b']
  | '\x0c' => ['\\', 'f']
  | c => if c.toNat < 0x20 then '\\' :: 'u' :: Text.hexPadded 4 c.toNat else [c]

/-- A string in quotes. -/
def quote (text : String) : String :=
  String.ofList ('"' :: text.toList.flatMap escapeChar ++ ['"'])

mutual

/-- A value in one line. -/
def compact : Json → String
  | .null => "null"
  | .bool value => if value then "true" else "false"
  | .number digits => digits
  | .string text => quote text
  | .array items => "[" ++ ",".intercalate (compactItems items) ++ "]"
  | .object fields => "\x7b" ++ ",".intercalate (compactFields fields) ++ "\x7d"

/-- Every item of a list in one line. -/
def compactItems : List Json → List String
  | [] => []
  | item :: rest => item.compact :: compactItems rest

/-- Every field of a record in one line. -/
def compactFields : List (String × Json) → List String
  | [] => []
  | (name, value) :: rest => (quote name ++ ":" ++ value.compact) :: compactFields rest

end

/-- A line break and the indentation of a level. -/
def newline (level : Nat) : String :=
  String.ofList ('\n' :: List.replicate (2 * level) ' ')

/-- Elements between brackets, one a line, the brackets standing at the given level. -/
def spread (opening closing : String) (level : Nat) (elements : List String) : String :=
  if elements.isEmpty then opening ++ closing
  else
    opening ++ newline (level + 1) ++ ("," ++ newline (level + 1)).intercalate elements ++
      newline level ++ closing

mutual

/-- A value with one element a line, at an indentation level. -/
def prettyAt (level : Nat) : Json → String
  | .array items => spread "[" "]" level (prettyItems (level + 1) items)
  | .object fields => spread "\x7b" "\x7d" level (prettyFields (level + 1) fields)
  | .null => "null"
  | .bool value => if value then "true" else "false"
  | .number digits => digits
  | .string text => quote text

/-- Every item of a list at an indentation level. -/
def prettyItems (level : Nat) : List Json → List String
  | [] => []
  | item :: rest => item.prettyAt level :: prettyItems level rest

/-- Every field of a record at an indentation level. -/
def prettyFields (level : Nat) : List (String × Json) → List String
  | [] => []
  | (name, value) :: rest =>
    (quote name ++ ": " ++ value.prettyAt level) :: prettyFields level rest

end

/-- A value with one element a line. -/
def pretty (value : Json) : String := value.prettyAt 0

end Json

end ClassFile
