import ClassFile.Guarded.Signature

/-!
# A descent that leaves a trail

The descent over the bytes of a signature once more, with a counter of how deeply type arguments are
nested, as a program keeps it: the counter is increased when type arguments begin, and decreased
when they end, whether they were read or a fault was found. To decrease a counter that is zero is a
crash.

On its way the descent leaves a trail (`ClassFile.Signature.Trail`). Each call of a routine is
written down when it ends, with the position from which it was called, the counter before and after
it, what came of it, and what was done meanwhile; and each piece that is cut out of the text, before
it is cut. What has no end leaves no trail. The trail is not looked at by the descent.
-/

namespace ClassFile.Signature

/-- The routines of the descent that call each other, or go on for an unknown time. -/
inductive Routine where
  | formals
  | references
  | reference
  | typeArguments
  deriving DecidableEq, Repr

/-- Something that the descent does. -/
inductive Deed where
  /-- A routine is called: from a position, with the counter before and after it, its result, and
  what is done in the call, the last deed first. -/
  | call (routine : Routine) (pos before after : Nat) (result : Except DescriptorFault Nat)
    (inner : List Deed)
  /-- The piece between two positions is cut out of the text. -/
  | cut (start stop : Nat)

/-- What a descent keeps. -/
structure Trail where
  /-- The names that were found, the last one first. -/
  found : List String
  /-- How deeply type arguments are nested. -/
  nesting : Nat
  /-- What was done, the last deed first. -/
  deeds : List Deed

namespace Trail

/-- Before the first step. -/
def empty : Trail := ⟨[], 0, []⟩

/-- What is done in a call is written down apart. -/
def opened (trail : Trail) : Trail := { trail with deeds := [] }

/-- When a call has ended it is one of the deeds. -/
def closed (trail : Trail) (routine : Routine) (pos : Nat) (result : Except DescriptorFault Nat)
    (last : Trail) : Trail :=
  { last with
    deeds := .call routine pos trail.nesting last.nesting result last.deeds :: trail.deeds }

end Trail

/-- A descent that leaves a trail. -/
abbrev Tracked := Guarded DescriptorFault Trail

namespace Tracked

/-- A step of the descent that does not change the counter, and of which nothing is written down. -/
def plain {α : Type} (m : Descent α) : Tracked α := fun trail => do
  let (result, found) ← m trail.found
  return (result, { trail with found })

/-- Cuts a piece out of the text. -/
def slice (chars : Chars) (start stop : Nat) : Tracked (List Char) := do
  modify fun trail => { trail with deeds := .cut start stop :: trail.deeds }
  Guarded.expect (slice? chars start stop)

/-- A call of a routine, with what the routine does. Functions that call each other have this
written out. -/
def called (routine : Routine) (pos : Nat) (body : Tracked Nat) : Tracked Nat := fun trail => do
  let (result, last) ← body trail.opened
  return (result, trail.closed routine pos result last)

/-- A text that is read with a trail. -/
abbrev Text := Chars

namespace Text

mutual

/-- The types of a list, up to the byte that ends it or to the end of the text. -/
def list (text : Text) (delimiter : Option UInt8) (pos : Nat) : Tracked Nat := do
  match Chars.byte? text pos with
  | none =>
    match delimiter with
    | none => return pos
    | some b => throw (.missing (Char.ofUInt8 b))
  | some b =>
    if some b = delimiter then return pos
    else
      let next ← text |>.reference pos
      text |>.list delimiter next
partial_fixpoint

/-- The call for a list of types. -/
def references (text : Text) (delimiter : Option UInt8) (pos : Nat) : Tracked Nat := fun trail => do
  let (result, last) ← text |>.list delimiter pos trail.opened
  return (result, trail.closed .references pos result last)
partial_fixpoint

/-- One type. Gives the position after it. -/
def type (text : Text) (pos : Nat) : Tracked Nat := do
  let (pos, b) ← plain (Chars.skipBrackets text pos)
  if b = '<'.toUInt8 then
    let stop ← text |>.typeArguments (pos + 1)
    return stop + 1
  else if b = 'T'.toUInt8 then
    return (← plain (Chars.skipVariable text (pos + 1))) + 1
  else if b = 'L'.toUInt8 then
    let (pos, name) ← text |>.className [] (pos + 1) (pos + 1)
    if name.isEmpty then throw .noClassName
    modify fun trail => { trail with found := String.ofList name :: trail.found }
    return pos + 1
  else if Chars.isSimpleByte b then
    return pos + 1
  else
    throw (.unexpected (Char.ofUInt8 b))
partial_fixpoint

/-- The call for one type. -/
def reference (text : Text) (pos : Nat) : Tracked Nat := fun trail => do
  let (result, last) ← text |>.type pos trail.opened
  return (result, trail.closed .reference pos result last)
partial_fixpoint

/-- A class name, of which a part is known and the next part begins at `start`. Gives the position
of the semicolon after it. -/
def className (text : Text) (known : List Char) (start pos : Nat) :
    Tracked (Nat × List Char) := do
  let b ← plain (Chars.byte text pos)
  if b = ';'.toUInt8 then
    return (pos, known ++ (← slice text start pos))
  else if b = '<'.toUInt8 then
    let part ← slice text start pos
    let stop ← text |>.typeArguments (pos + 1)
    text |>.className (known ++ part) (stop + 1) (stop + 1)
  else if b = '.'.toUInt8 then
    let part ← slice text start pos
    text |>.className (known ++ part ++ ['$']) (pos + 1) (pos + 1)
  else
    text |>.className known start (pos + 1)
partial_fixpoint

/-- The call for type arguments behind the bracket that opens them. The counter is increased for the
list in them, and decreased whatever comes of it. -/
def typeArguments (text : Text) (pos : Nat) : Tracked Nat := fun trail => do
  if trail.nesting = nestingLimit then
    return (.error .tooDeep, trail.closed .typeArguments pos (.error .tooDeep) trail.opened)
  else
    let (result, last) ← text |>.references (some '>'.toUInt8) pos
      { trail.opened with nesting := trail.nesting + 1 }
    if last.nesting = 0 then none
    else
      return (result, trail.closed .typeArguments pos result
        { last with nesting := last.nesting - 1 })
partial_fixpoint

end

theorem references_eq (text : Text) (delimiter : Option UInt8) (pos : Nat) :
    references text delimiter pos = called .references pos (list text delimiter pos) :=
  funext fun trail => references.eq_def text delimiter pos trail

theorem reference_eq (text : Text) (pos : Nat) :
    reference text pos = called .reference pos (type text pos) :=
  funext fun trail => reference.eq_def text pos trail

/-- The bounds after a colon and the first bound. -/
def furtherBounds (text : Text) (pos : Nat) : Tracked Nat := do
  let b ← plain (Chars.byte text pos)
  if b = ':'.toUInt8 then
    let next ← reference text (pos + 1)
    text |>.furtherBounds next
  else return pos
partial_fixpoint

/-- The bounds of a formal type parameter, behind the colon after its name. -/
def bounds (text : Text) (pos : Nat) : Tracked Nat := do
  let b ← plain (Chars.byte text pos)
  if b = ':'.toUInt8 then furtherBounds text pos
  else
    let next ← reference text pos
    furtherBounds text next

/-- Formal type parameters, up to the bracket that closes them. Gives the position after it. -/
def parameters (text : Text) (pos : Nat) : Tracked Nat := do
  let b ← plain (Chars.byte text pos)
  if b = '>'.toUInt8 then return pos + 1
  else
    match find? ':' (← slice text pos (utf8 text).length) with
    | none => throw .noIdentifier
    | some length =>
      let next ← bounds text (pos + length + 1)
      text |>.parameters next
partial_fixpoint

/-- The call for formal type parameters behind the bracket that opens them. -/
def formals (text : Text) (pos : Nat) : Tracked Nat := called .formals pos (parameters text pos)

/-- The front of a text: formal type parameters, or nothing. -/
def opening (text : Text) : Tracked Nat := do
  let b ← plain (Chars.byte text 0)
  if b = '<'.toUInt8 then formals text 1 else return 0

/-- The arguments in parentheses, or nothing. -/
def arguments (text : Text) (pos : Nat) : Tracked Nat := do
  if Chars.byte? text pos = some '('.toUInt8 then
    let stop ← references text (some ')'.toUInt8) (pos + 1)
    return stop + 1
  else return pos

/-- A whole descriptor or signature. -/
def signature (text : Text) : Tracked Unit := do
  if text.isEmpty then throw .empty
  else
    let start ← opening text
    let results ← arguments text start
    let _ ← references text none results

end Text

end Tracked

/-! ### Deeds in order -/

/-- A character of the text begins at the position, or the text ends there. -/
def IsBoundary (chars : Chars) (pos : Nat) : Prop :=
  ∃ front rest, chars = front ++ rest ∧ pos = (utf8 front).length

/-- What a routine gives if it was called from a position: for a type, and for formal parameters, a
later position of the text; for a list of types, the position at which it ends; and for type
arguments, the position of the bracket that closes them. -/
def Routine.Gives (chars : Chars) (pos stop : Nat) : Routine → Prop
  | formals => pos < stop ∧ stop ≤ (utf8 chars).length
  | references => pos ≤ stop ∧ stop ≤ (utf8 chars).length
  | reference => pos < stop ∧ stop ≤ (utf8 chars).length
  | typeArguments => pos ≤ stop ∧ stop < (utf8 chars).length

/-- How many type arguments are open in a routine, if that many are around it. -/
def Routine.inside (active : Nat) : Routine → Nat
  | typeArguments => active + 1
  | _ => active

/-- What is done in the course of some deeds, and in how many calls for type arguments. -/
inductive Deed.Happens (deeds : List Deed) : (active : Nat) → Deed → Prop where
  | here {deed : Deed} : deed ∈ deeds → Happens deeds 0 deed
  | within {active pos before after : Nat} {routine : Routine} {inner : List Deed} {deed : Deed}
    {result : Except DescriptorFault Nat} :
    Happens deeds active (.call routine pos before after result inner) → deed ∈ inner →
    Happens deeds (routine.inside active) deed

/-- What is right for a deed, if it is done in so many calls for type arguments. -/
def Deed.Orderly (chars : Chars) (active : Nat) : Deed → Prop
  | .call routine pos before after result _ =>
    before = active ∧ after = active ∧ active ≤ nestingLimit ∧
      ∀ stop, result = .ok stop → routine.Gives chars pos stop
  | .cut start stop => start ≤ stop ∧ IsBoundary chars start ∧ IsBoundary chars stop

end ClassFile.Signature
