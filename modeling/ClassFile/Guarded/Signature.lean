import ClassFile.Guarded.Basic
import ClassFile.Signature.Method
import ClassFile.Signature.Scan

/-!
# Signatures by position

The grammar of descriptors and signatures, read by recursive descent over the bytes of a
text. A position is a number of bytes from the start of the text. Names are cut out of the
text between two positions, which crashes unless both are in order, within the text, and
between characters.

Nothing here says that the descent comes to an end, nor that positions are where they should
be: a descent without an end is a crash like any other.
-/

namespace ClassFile.Signature

/-- A text, as the list of its characters. -/
abbrev Chars := List Char

/-- The bytes of a text. -/
def utf8 (chars : List Char) : Bytes := chars.flatMap String.utf8EncodeChar

/-- What is left of a text after a number of bytes, if a character begins there. -/
def dropBytes? : Nat → List Char → Option (List Char)
  | 0, chars => some chars
  | _ + 1, [] => none
  | n + 1, c :: rest =>
    if c.utf8Size ≤ n + 1 then dropBytes? (n + 1 - c.utf8Size) rest else none

/-- The front of a text up to a number of bytes, if a character ends there. -/
def takeBytes? : Nat → List Char → Option (List Char)
  | 0, _ => some []
  | _ + 1, [] => none
  | n + 1, c :: rest =>
    if c.utf8Size ≤ n + 1 then (c :: ·) <$> takeBytes? (n + 1 - c.utf8Size) rest else none

/-- What stands between two positions of a text. -/
def slice? (chars : List Char) (start stop : Nat) : Option (List Char) :=
  if start ≤ stop then (dropBytes? start chars).bind (takeBytes? (stop - start)) else none

/-- The position at which a character first stands. -/
def find? (c : Char) (chars : List Char) : Option Nat :=
  if c ∈ chars then some (utf8 (chars.takeWhile (· ≠ c))).length else none

/-- A descent keeps the names that it has found, the last one first. -/
abbrev Descent := Guarded DescriptorFault (List String)

namespace Chars

/-- The byte at a position. -/
def byte? (chars : Chars) (pos : Nat) : Option UInt8 := (utf8 chars)[pos]?

/-- The byte at a position that should be in the text. -/
def byte (chars : Chars) (pos : Nat) : Descent UInt8 :=
  match byte? chars pos with
  | some b => pure b
  | none => throw .ended

/-- Cuts a piece out of the text. -/
def slice (chars : Chars) (start stop : Nat) : Descent (List Char) :=
  Guarded.expect (slice? chars start stop)

/-- Passes over the marks of arrays. -/
def skipBrackets (chars : Chars) (pos : Nat) : Descent (Nat × UInt8) := do
  let b ← byte chars pos
  if b = '['.toUInt8 then chars |>.skipBrackets (pos + 1) else return (pos, b)
partial_fixpoint

/-- Passes over the name of a type variable. -/
def skipVariable (chars : Chars) (pos : Nat) : Descent Nat := do
  let b ← byte chars pos
  if b = ';'.toUInt8 then return pos else chars |>.skipVariable (pos + 1)
partial_fixpoint

/-- Whether a byte is a type by itself. -/
def isSimpleByte (b : UInt8) : Bool := isSimple (Char.ofUInt8 b)

mutual

/-- The types of a list, up to the byte that ends it or to the end of the text. -/
def references (chars : Chars) (depth : Nat) (delimiter : Option UInt8) (pos : Nat) :
    Descent Nat := do
  match byte? chars pos with
  | none =>
    match delimiter with
    | none => return pos
    | some b => throw (.missing (Char.ofUInt8 b))
  | some b =>
    if some b = delimiter then return pos
    else
      let next ← chars |>.reference depth pos
      chars |>.references depth delimiter next
partial_fixpoint

/-- One type. Gives the position after it. -/
def reference (chars : Chars) (depth : Nat) (pos : Nat) : Descent Nat := do
  let (pos, b) ← skipBrackets chars pos
  if b = '<'.toUInt8 then
    let stop ← chars |>.typeArguments depth (pos + 1)
    return stop + 1
  else if b = 'T'.toUInt8 then
    return (← skipVariable chars (pos + 1)) + 1
  else if b = 'L'.toUInt8 then
    let (pos, name) ← chars |>.className depth [] (pos + 1) (pos + 1)
    if name.isEmpty then throw .noClassName
    modify (String.ofList name :: ·)
    return pos + 1
  else if isSimpleByte b then
    return pos + 1
  else
    throw (.unexpected (Char.ofUInt8 b))
partial_fixpoint

/-- A class name, of which a part is known and the next part begins at `start`. Gives the
position of the semicolon after it. -/
def className (chars : Chars) (depth : Nat) (known : List Char) (start pos : Nat) :
    Descent (Nat × List Char) := do
  let b ← byte chars pos
  if b = ';'.toUInt8 then
    return (pos, known ++ (← slice chars start pos))
  else if b = '<'.toUInt8 then
    let part ← slice chars start pos
    let stop ← chars |>.typeArguments depth (pos + 1)
    chars |>.className depth (known ++ part) (stop + 1) (stop + 1)
  else if b = '.'.toUInt8 then
    let part ← slice chars start pos
    chars |>.className depth (known ++ part ++ ['$']) (pos + 1) (pos + 1)
  else
    chars |>.className depth known start (pos + 1)
partial_fixpoint

/-- Type arguments behind the bracket that opens them. Gives the position of the bracket
that closes them. -/
def typeArguments (chars : Chars) (depth : Nat) (pos : Nat) : Descent Nat := do
  if depth = nestingLimit then throw .tooDeep
  else chars |>.references (depth + 1) (some '>'.toUInt8) pos
partial_fixpoint

end

/-- The bounds after a colon and the first bound. -/
def furtherBounds (chars : Chars) (pos : Nat) : Descent Nat := do
  let b ← byte chars pos
  if b = ':'.toUInt8 then
    let next ← reference chars 0 (pos + 1)
    chars |>.furtherBounds next
  else return pos
partial_fixpoint

/-- The bounds of a formal type parameter, behind the colon after its name. -/
def bounds (chars : Chars) (pos : Nat) : Descent Nat := do
  let b ← byte chars pos
  if b = ':'.toUInt8 then furtherBounds chars pos
  else
    let next ← reference chars 0 pos
    furtherBounds chars next

/-- Formal type parameters behind the bracket that opens them. Gives the position after the
bracket that closes them. -/
def formals (chars : Chars) (pos : Nat) : Descent Nat := do
  let b ← byte chars pos
  if b = '>'.toUInt8 then return pos + 1
  else
    match find? ':' (← slice chars pos (utf8 chars).length) with
    | none => throw .noIdentifier
    | some length =>
      let next ← bounds chars (pos + length + 1)
      chars |>.formals next
partial_fixpoint

/-- The front of a text: formal type parameters, or nothing. -/
def opening (chars : Chars) : Descent Nat := do
  let b ← byte chars 0
  if b = '<'.toUInt8 then formals chars 1 else return 0

/-- The arguments in parentheses, or nothing. -/
def arguments (chars : Chars) (pos : Nat) : Descent Nat := do
  if byte? chars pos = some '('.toUInt8 then
    let stop ← references chars 0 (some ')'.toUInt8) (pos + 1)
    return stop + 1
  else return pos

/-- A whole descriptor or signature. -/
def signature (chars : Chars) : Descent Unit := do
  if chars.isEmpty then throw .empty
  else
    let start ← opening chars
    let results ← arguments chars start
    let _ ← references chars 0 none results

end Chars

/-- Reads a text by position for the classes that it names. -/
def scanByPosition (text : String) : Option Scan :=
  (Chars.signature text.toList []).map fun (result, found) =>
    match result with
    | .ok () => ⟨found.reverse, none⟩
    | .error why => ⟨found.reverse, some (.descriptor text why)⟩

/-- A splitting of arguments keeps nothing but its result. -/
abbrev Splitting := Guarded MethodFault Unit

namespace Chars

/-- Passes over the marks of arrays, if there are any. -/
def skipMarks (chars : Chars) (pos : Nat) : Splitting Nat := do
  if byte? chars pos = some '['.toUInt8 then chars |>.skipMarks (pos + 1) else return pos
partial_fixpoint

/-- Whether a byte is the type of an argument by itself. -/
def isPrimitiveByte (b : UInt8) : Bool := isPrimitiveArgument (Char.ofUInt8 b)

/-- The arguments from a position on, up to the parenthesis that ends them, after those that
were split off before. -/
def splitFrom (chars : Chars) (before : List String) (start : Nat) : Splitting (List String) := do
  let pos ← skipMarks chars start
  match byte? chars pos with
  | none => throw .malformed
  | some b =>
    if b = ')'.toUInt8 ∧ pos = start then return before
    else if b = 'L'.toUInt8 then
      match find? ';' (← Guarded.expect (slice? chars pos (utf8 chars).length)) with
      | none => throw .unterminated
      | some length =>
        let part ← Guarded.expect (slice? chars start (pos + length + 1))
        chars |>.splitFrom (before ++ [String.ofList part]) (pos + length + 1)
    else if isPrimitiveByte b then
      let part ← Guarded.expect (slice? chars start (pos + 1))
      chars |>.splitFrom (before ++ [String.ofList part]) (pos + 1)
    else throw .malformed
partial_fixpoint

/-- The arguments of a method descriptor. -/
def split (chars : Chars) : Splitting (List String) := do
  if byte? chars 0 = some '('.toUInt8 then splitFrom chars [] 1
  else throw .notOpened

end Chars

/-- Splits a method descriptor by position into the descriptors of its arguments. -/
def argumentsByPosition (text : String) : Option (Except Fault (List String)) :=
  (Chars.split text.toList ()).map fun (result, _) => result.mapError (.method text)

end ClassFile.Signature
