import ClassFile.Fault

/-!
# Argument and return types

A method descriptor is a list of argument descriptors between parentheses and a
return descriptor. The arguments are split off one by one; the return type is what
follows the last closing parenthesis, in whatever text has an opening one.

A single descriptor has a name in the source language: a keyword for a primitive type,
the class name with dots, and a pair of brackets for every dimension of an array.
-/

namespace ClassFile.Signature

/-- Whether a letter is a primitive type that an argument can have. -/
def isPrimitiveArgument (c : Char) : Bool :=
  "BCDFIJSZ".toList.contains c

/-- Splits arguments off a text up to the parenthesis that ends them. What was read of
the current one is given backwards; `inName` says that it is a class name. -/
def splitArguments : (reversed : List Char) → (inName : Bool) → List Char →
    Except MethodFault (List String)
  | _, true, [] => .error .unterminated
  | _, false, [] => .error .malformed
  | reversed, true, c :: rest =>
    if c = ';' then
      return String.ofList (c :: reversed).reverse :: (← splitArguments [] false rest)
    else splitArguments (c :: reversed) true rest
  | reversed, false, c :: rest =>
    if c = ')' ∧ reversed = [] then .ok []
    else if c = '[' then splitArguments (c :: reversed) false rest
    else if c = 'L' then splitArguments (c :: reversed) true rest
    else if isPrimitiveArgument c then
      return String.ofList (c :: reversed).reverse :: (← splitArguments [] false rest)
    else .error .malformed

/-- The argument descriptors of a method descriptor. What follows the arguments is not
looked at. -/
def arguments (text : String) : Except Fault (List String) :=
  let split := match text.toList with
    | '(' :: rest => splitArguments [] false rest
    | _ => .error .notOpened
  split.mapError (.method text)

/-- The return type of a method descriptor or signature: all that follows the last
closing parenthesis. -/
def returnPart (text : String) : Except Fault String :=
  let chars := text.toList
  let part := (chars.reverse.takeWhile (· ≠ ')')).reverse
  if chars.contains ')' ∧ chars.contains '(' ∧ part ≠ [] then .ok (String.ofList part)
  else .error (.method text .notMethod)

/-- The keyword of a primitive type, by the first character of its descriptor. -/
def keyword? : Char → Option String
  | 'V' => some "void"
  | 'B' => some "byte"
  | 'C' => some "char"
  | 'I' => some "int"
  | 'S' => some "short"
  | 'D' => some "double"
  | 'F' => some "float"
  | 'J' => some "long"
  | 'Z' => some "boolean"
  | _ => none

/-- Whether a text is enclosed as a class or a type variable. -/
def isEnclosed (chars : List Char) : Bool :=
  (chars.head? = some 'L' || chars.head? = some 'T') && chars.getLast? = some ';'

/-- The source name of a single descriptor. Of a text that is neither enclosed nor an
array only the first character counts. -/
def sourceTypeOf : List Char → Except Fault String
  | [] => .error (.notType "")
  | c :: rest =>
    if isEnclosed (c :: rest) then
      .ok (String.ofList (rest.dropLast.map fun c => if c = '/' then '.' else c))
    else if c = '[' then return (← sourceTypeOf rest) ++ "[]"
    else match keyword? c with
      | some word => .ok word
      | none => .error (.notType (String.ofList (c :: rest)))

/-- The source name of a single descriptor. -/
def sourceType (text : String) : Except Fault String :=
  sourceTypeOf text.toList

/-- The source name of the return type of a method descriptor or signature. -/
def returnType (text : String) : Except Fault String := do
  sourceType (← returnPart text)

end ClassFile.Signature
