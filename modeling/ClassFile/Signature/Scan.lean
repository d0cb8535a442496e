import ClassFile.Fault

/-!
# The class names in a descriptor

A descriptor or generic signature is read from left to right, one character a step,
for the classes that it names:

```text
signature ::= formals? ( '(' type* ')' )? type*
formals   ::= '<' ( identifier ':' type? ( ':' type )* )* '>'
type      ::= '['* ( primitive | 'L' name ';' | 'T' variable ';' | arguments )
arguments ::= '<' type* '>'
```

A name may be interrupted by arguments, and a dot in it begins the name of a nested
class and is kept as `$`. A class is found at the semicolon that ends its name, so
the classes in its arguments are found before it. Wildcard marks `+`, `-` and `*` are
accepted wherever a type may stand, as are primitive letters.

The scanner is a machine: a list at the bottom (`Ground`), a stack of open angle
brackets (`Frame`), and a `Mode` that says what the next character may be. The
stack is the nesting of type arguments and is never higher than `nestingLimit`.
-/

namespace ClassFile.Signature

/-- The list that holds everything outside of type arguments. -/
inductive Ground where
  /-- The bounds of formal type parameters. -/
  | formals
  /-- The types between the parentheses. -/
  | arguments
  /-- The types after them, or all of a signature without parentheses. -/
  | results
  deriving DecidableEq, Repr

/-- What an open angle bracket belongs to. -/
inductive Frame where
  /-- To nothing: the bracketed list stands where a type does. -/
  | bare
  /-- To a class whose name so far is given backwards. -/
  | named (reversed : List Char)
  deriving DecidableEq, Repr

/-- What the next character may be. -/
inductive Mode where
  /-- The first character. -/
  | start
  /-- An opening parenthesis, or a type. -/
  | opening
  /-- A formal type parameter, or the end of them. -/
  | formal
  /-- More of a formal type parameter's name. -/
  | identifier
  /-- A bound, which may be left out before a further one. -/
  | bound
  /-- A further bound, or what `formal` may be. -/
  | afterBound
  /-- A type, or what ends the list. -/
  | item
  /-- A type. -/
  | type
  /-- More of a type variable's name. -/
  | variable
  /-- More of a class name, given backwards. -/
  | name (reversed : List Char)
  deriving DecidableEq, Repr

/-- Where a scan stands, and the classes found so far, the last one first. -/
structure Scanner where
  ground : Ground
  stack : List Frame
  mode : Mode
  found : List String
  deriving DecidableEq, Repr

/-- The byte by which the stored form of a character begins, as the character of the
same number. -/
def leadByte (c : Char) : Char :=
  let code := c.toNat
  if code < 0x80 then c
  else if code < 0x800 then Char.ofNat (0xC0 + code / 0x40)
  else if code < 0x10000 then Char.ofNat (0xE0 + code / 0x1000)
  else Char.ofNat (0xF0 + code / 0x40000)

/-- Whether a letter is a type by itself: a primitive type, `void` or a wildcard mark. -/
def isSimple (c : Char) : Bool :=
  "BCDFIJSZV+-*".toList.contains c

namespace Scanner

/-- A scan that has not begun. -/
def initial : Scanner := ⟨.results, [], .start, []⟩

/-- How many lists of type arguments are open. -/
def nesting (s : Scanner) : Nat := s.stack.length

/-- What follows a type. -/
def afterType (s : Scanner) : Mode :=
  match s.stack, s.ground with
  | [], .formals => .afterBound
  | _, _ => .item

/-- A type is complete. -/
def completed (s : Scanner) : Scanner := { s with mode := s.afterType }

/-- An angle bracket opens. -/
def enter (s : Scanner) (frame : Frame) : Except DescriptorFault Scanner :=
  if s.nesting = nestingLimit then .error .tooDeep
  else .ok { s with stack := frame :: s.stack, mode := .item }

/-- A type begins. -/
def beginType (s : Scanner) (c : Char) : Except DescriptorFault Scanner :=
  if c = '[' then .ok { s with mode := .type }
  else if c = '<' then s.enter .bare
  else if c = 'T' then .ok { s with mode := .variable }
  else if c = 'L' then .ok { s with mode := .name [] }
  else if isSimple c then .ok s.completed
  else .error (.unexpected (leadByte c))

/-- A type of a list begins, or the list ends. -/
def item (s : Scanner) (c : Char) : Except DescriptorFault Scanner :=
  match s.stack, s.ground with
  | .bare :: stack, _ =>
    if c = '>' then .ok (completed { s with stack }) else s.beginType c
  | .named reversed :: stack, _ =>
    if c = '>' then .ok { s with stack, mode := .name reversed } else s.beginType c
  | [], .arguments =>
    if c = ')' then .ok { s with ground := .results, mode := .item } else s.beginType c
  | [], _ => s.beginType c

/-- A formal type parameter begins, or the last one has ended. -/
def formal (s : Scanner) (c : Char) : Except DescriptorFault Scanner :=
  if c = '>' then .ok { s with ground := .results, mode := .opening }
  else if c = ':' then .ok { s with mode := .bound }
  else .ok { s with mode := .identifier }

/-- What may follow the formal type parameters. -/
def opening (s : Scanner) (c : Char) : Except DescriptorFault Scanner :=
  if c = '(' then .ok { s with ground := .arguments, mode := .item } else s.item c

/-- One character. -/
def step (s : Scanner) (c : Char) : Except DescriptorFault Scanner :=
  match s.mode with
  | .start => if c = '<' then .ok { s with ground := .formals, mode := .formal } else s.opening c
  | .opening => s.opening c
  | .formal => s.formal c
  | .identifier => .ok (if c = ':' then { s with mode := .bound } else s)
  | .bound => if c = ':' then .ok { s with mode := .type } else s.beginType c
  | .afterBound => if c = ':' then .ok { s with mode := .type } else s.formal c
  | .item => s.item c
  | .type => s.beginType c
  | .variable => .ok (if c = ';' then s.completed else s)
  | .name reversed =>
    if c = ';' then
      if reversed = [] then .error .noClassName
      else .ok (completed { s with found := String.ofList reversed.reverse :: s.found })
    else if c = '<' then s.enter (.named reversed)
    else .ok { s with mode := .name ((if c = '.' then '$' else c) :: reversed) }

/-- What is wrong with a text that ends here. -/
def atEnd (s : Scanner) : Option DescriptorFault :=
  match s.mode with
  | .start => some .empty
  | .opening => none
  | .identifier => some .noIdentifier
  | .item =>
    match s.stack, s.ground with
    | [], .arguments => some (.missing ')')
    | [], _ => none
    | _ :: _, _ => some (.missing '>')
  | _ => some .ended

/-- The rest of a text: where the scan stops, and what is wrong with the text. -/
def run : Scanner → List Char → Scanner × Option DescriptorFault
  | s, [] => (s, s.atEnd)
  | s, c :: rest =>
    match s.step c with
    | .ok next => next.run rest
    | .error why => (s, some why)

end Scanner

/-- The classes that a text names, in the order in which their names end, up to the
place where something is wrong with it. -/
structure Scan where
  names : List String
  fault : Option Fault
  deriving DecidableEq, Repr

/-- Reads a descriptor or signature for the classes that it names. -/
def scan (text : String) : Scan :=
  let (last, fault) := Scanner.initial.run text.toList
  ⟨last.found.reverse, fault.map (.descriptor text)⟩

/-! ### What a character does to a scan -/

namespace Scanner

variable {s next : Scanner} {c : Char}

/-- What a character may do. -/
inductive Moves (s : Scanner) (c : Char) : Scanner → Prop
  /-- Nothing is read of a class name. -/
  | turn (ground : Ground) {mode : Mode} : (∀ reversed, mode ≠ .name reversed) →
    Moves s c { s with ground, mode }
  /-- Type arguments begin, after a part of a name or where a type stands. -/
  | enter {frame : Frame} : s.nesting ≠ nestingLimit →
    (∀ reversed, frame = .named reversed → s.mode = .name reversed) →
    Moves s c { s with stack := frame :: s.stack, mode := .item }
  /-- Type arguments end, and the name goes on if there is one. -/
  | leave {frame : Frame} {stack : List Frame} {mode : Mode} : s.stack = frame :: stack →
    (∀ reversed, mode = .name reversed → frame = .named reversed) →
    Moves s c { s with stack, mode }
  /-- A name begins. -/
  | begin : Moves s c { s with mode := .name [] }
  /-- A name goes on. -/
  | extend {reversed : List Char} : s.mode = .name reversed → c ≠ ';' →
    Moves s c { s with mode := .name ((if c = '.' then '$' else c) :: reversed) }
  /-- A name ends, and the class is found. -/
  | found {reversed : List Char} : s.mode = .name reversed →
    Moves s c (completed { s with found := String.ofList reversed.reverse :: s.found })

theorem afterType_ne_name (s : Scanner) (reversed : List Char) :
    s.afterType ≠ .name reversed := by
  rw [afterType]
  split <;> exact nofun

namespace Moves

theorem completed (s : Scanner) (c : Char) : s.Moves c s.completed :=
  .turn s.ground s.afterType_ne_name

theorem of_enter {frame : Frame}
    (hframe : ∀ reversed, frame = .named reversed → s.mode = .name reversed)
    (henter : s.enter frame = .ok next) : s.Moves c next := by
  rw [Scanner.enter] at henter
  split at henter
  · cases henter
  · rename_i hlimit
    cases henter
    exact .enter hlimit hframe

theorem of_beginType (hbegin : s.beginType c = .ok next) : s.Moves c next := by
  rw [Scanner.beginType] at hbegin
  split at hbegin
  · cases hbegin
    exact .turn s.ground nofun
  split at hbegin
  · exact .of_enter (by nofun) hbegin
  split at hbegin
  · cases hbegin
    exact .turn s.ground nofun
  split at hbegin
  · cases hbegin
    exact .begin
  split at hbegin
  · cases hbegin
    exact .completed s c
  · cases hbegin

theorem of_item (hitem : s.item c = .ok next) : s.Moves c next := by
  rw [Scanner.item] at hitem
  split at hitem
  · rename_i hstack
    split at hitem
    · cases hitem
      exact .leave hstack fun reversed h => absurd h (afterType_ne_name _ reversed)
    · exact .of_beginType hitem
  · rename_i hstack
    split at hitem
    · cases hitem
      exact .leave hstack fun _ h => congrArg Frame.named (Mode.name.inj h)
    · exact .of_beginType hitem
  · split at hitem
    · cases hitem
      exact .turn .results nofun
    · exact .of_beginType hitem
  · exact .of_beginType hitem

theorem of_formal (hformal : s.formal c = .ok next) : s.Moves c next := by
  rw [Scanner.formal] at hformal
  split at hformal
  · cases hformal
    exact .turn .results nofun
  split at hformal
  all_goals
    cases hformal
    exact .turn s.ground nofun

theorem of_opening (hopening : s.opening c = .ok next) : s.Moves c next := by
  rw [Scanner.opening] at hopening
  split at hopening
  · cases hopening
    exact .turn .arguments nofun
  · exact .of_item hopening

/-- A character does nothing else, whatever is to be read. -/
theorem of_step (hstep : s.step c = .ok next) : s.Moves c next := by
  -- where the scan goes on as it is
  have hstays (hmode : ∀ reversed, s.mode ≠ .name reversed) : s.Moves c s := .turn s.ground hmode
  rw [Scanner.step] at hstep
  cases hmode : s.mode with
  | start =>
    rw [hmode] at hstep
    dsimp only at hstep
    split at hstep
    · cases hstep
      exact .turn .formals nofun
    · exact .of_opening hstep
  | opening =>
    rw [hmode] at hstep
    exact .of_opening hstep
  | formal =>
    rw [hmode] at hstep
    exact .of_formal hstep
  | identifier =>
    rw [hmode] at hstep
    cases hstep
    split
    · exact .turn s.ground nofun
    · exact hstays (hmode ▸ nofun)
  | bound =>
    rw [hmode] at hstep
    dsimp only at hstep
    split at hstep
    · cases hstep
      exact .turn s.ground nofun
    · exact .of_beginType hstep
  | afterBound =>
    rw [hmode] at hstep
    dsimp only at hstep
    split at hstep
    · cases hstep
      exact .turn s.ground nofun
    · exact .of_formal hstep
  | item =>
    rw [hmode] at hstep
    exact .of_item hstep
  | type =>
    rw [hmode] at hstep
    exact .of_beginType hstep
  | «variable» =>
    rw [hmode] at hstep
    cases hstep
    split
    · exact .completed s c
    · exact hstays (hmode ▸ nofun)
  | name reversed =>
    rw [hmode] at hstep
    dsimp only at hstep
    split at hstep
    · split at hstep
      · cases hstep
      · cases hstep
        exact .found hmode
    rename_i hend
    split at hstep
    · exact .of_enter (fun _ h => hmode.trans (congrArg Mode.name (Frame.named.inj h))) hstep
    · cases hstep
      exact .extend hmode hend

/-- Only an opening bracket makes the stack higher, and only below the limit. -/
theorem nesting_le (hmoves : s.Moves c next) (h : s.nesting ≤ nestingLimit) :
    next.nesting ≤ nestingLimit := by
  cases hmoves with
  | enter hlimit => exact Nat.lt_of_le_of_ne h hlimit
  | leave hstack =>
    rw [nesting, hstack] at h
    exact Nat.le_of_succ_le h
  | turn | begin | extend | found => exact h

end Moves

/-- What no character changes holds wherever a scan stops. -/
theorem run_keeps {P : Scanner → Prop}
    (hmoves : ∀ (s : Scanner) (c : Char) (next : Scanner), s.Moves c next → P s → P next)
    (rest : List Char) (h : P s) : P (s.run rest).1 := by
  induction rest generalizing s with
  | nil => exact h
  | cons c rest ih =>
    rw [run]
    cases hstep : s.step c with
    | ok next => exact ih (hmoves s c next (.of_step hstep) h)
    | error why => exact h

/-- A scan never stands deeper than the limit, if it did not begin deeper: what would go there is
refused. -/
theorem nesting_run_le (rest : List Char) (h : s.nesting ≤ nestingLimit) :
    (s.run rest).1.nesting ≤ nestingLimit :=
  run_keeps (fun _ _ _ => Moves.nesting_le) rest h

end Scanner

end ClassFile.Signature
