import ClassFile.CommandLine.Number

/-!
# Arguments of the command line

A command line names a command and what it is to work on. Options may stand anywhere
after the command, and two of them also in front of it; given in both places, the one
after the command counts. Two dashes end the options.

The value of an option may be attached to it, by an equals sign or to its letter. Then it
is looked at right away. Otherwise it is the next argument, whatever that is unless it
looks like an option itself, and it is looked at when the next thing begins. Arguments
without an option wait in the same way. So of two mistakes the first to be looked at is
told, with one exception: an argument that is unknown is told at once, and what waits is
forgotten.
-/

namespace ClassFile

/-- The form of an output. -/
inductive OutputFormat where
  | json
  | text
  deriving DecidableEq, Repr

/-- What the program is asked to do. -/
inductive Command where
  /-- Tell what is known of a class. -/
  | inspect (file : String) (format : OutputFormat)
  /-- Decode all classes at a path. -/
  | scan (path : String) (format : OutputFormat)
  /-- Put a query to all classes at a path. -/
  | query (path word : String) (pattern : Option String) (format : OutputFormat)
  /-- Tell what a class refers to. -/
  | references (file : String) (format : OutputFormat)
  deriving DecidableEq, Repr

/-- Why a command line cannot be understood. -/
inductive UsageFault where
  /-- Nothing is asked at all. -/
  | nothing
  /-- Options are given, but no command. -/
  | noCommand
  | unknownCommand
  | unknownArgument
  /-- Something that the command works on is not given. -/
  | missingArgument
  /-- An option is given twice. -/
  | repeatedOption
  /-- An option has no value, or one that is not among those it can have. -/
  | badValue
  /-- A number is none. -/
  | badNumber
  /-- An option that has no value is given one. -/
  | unwantedValue
  /-- Help is asked for. -/
  | help
  deriving DecidableEq, Repr

/-- A command line that is understood. -/
structure Invocation where
  command : Command
  log : Option String
  threads : Option Nat
  deriving DecidableEq, Repr

namespace Arguments

/-- The options that have a value. -/
inductive Setting where
  | log
  | threads
  | format
  deriving DecidableEq, Repr

/-- What an option asks. -/
inductive Switch where
  | setting (setting : Setting)
  | help
  deriving DecidableEq, Repr

/-- What an argument without an option stands for. -/
inductive Slot where
  | path
  | word
  | pattern
  deriving DecidableEq, Repr

/-- The commands by their names. -/
inductive Verb where
  | inspect
  | scan
  | query
  | refs
  deriving DecidableEq, Repr

namespace Verb

/-- The command of a name. -/
def ofName? : String → Option Verb
  | "inspect" => some inspect
  | "scan" => some scan
  | "query" => some query
  | "refs" => some refs
  | _ => none

/-- What the arguments of a command stand for, in their order. -/
def slots : Verb → List Slot
  | query => [.path, .word, .pattern]
  | _ => [.path]

/-- The form of the output if none is asked for. -/
def usualFormat : Verb → OutputFormat
  | inspect | scan => .json
  | query | refs => .text

end Verb

/-- The option of a long name. The form of the output can be asked for after a command
only. -/
def longSwitch? (afterCommand : Bool) : String → Option Switch
  | "log" => some (.setting .log)
  | "threads" => some (.setting .threads)
  | "format" => if afterCommand then some (.setting .format) else none
  | "help" => some .help
  | _ => none

/-- The option of a letter. -/
def shortSwitch? (afterCommand : Bool) : Char → Option Switch
  | 'f' => if afterCommand then some (.setting .format) else none
  | 'h' => some .help
  | _ => none

/-- What an argument looks like. -/
inductive Shape where
  /-- Two dashes. -/
  | ending
  /-- Two dashes and a name, perhaps with an equals sign and a value. -/
  | long (name : String) (value : Option String)
  /-- A dash and letters. -/
  | short (letters : List Char)
  | plain
  deriving DecidableEq, Repr

/-- What an argument looks like. A single dash is nothing special. -/
def shapeOf (argument : String) : Shape :=
  match argument.toList with
  | ['-', '-'] => .ending
  | '-' :: '-' :: rest =>
    let name := String.ofList (rest.takeWhile (· ≠ '='))
    match rest.dropWhile (· ≠ '=') with
    | [] => .long name none
    | _ :: value => .long name (some (String.ofList value))
  | '-' :: c :: rest => .short (c :: rest)
  | _ => .plain

/-- What was given so far, on one side of the command. -/
structure Given where
  log : Option String := none
  threads : Option Nat := none
  format : Option OutputFormat := none
  places : List (Slot × String) := []
  deriving DecidableEq, Repr

/-- What waits to be looked at: an option whose value has come or has not, or an argument
without an option. -/
inductive Waiting where
  | setting (setting : Setting) (value : Option String)
  | place (slot : Slot) (value : String)
  deriving DecidableEq, Repr

/-- The form of a name. -/
def formatOf? : String → Option OutputFormat
  | "json" => some .json
  | "text" => some .text
  | _ => none

namespace Given

/-- Whether an option was given. -/
def has (given : Given) : Setting → Bool
  | .log => given.log.isSome
  | .threads => given.threads.isSome
  | .format => given.format.isSome

/-- Looks at the value of an option. -/
def set (given : Given) (setting : Setting) (value : String) : Except UsageFault Given :=
  if given.has setting then .error .repeatedOption
  else match setting with
    | .log => .ok { given with log := some value }
    | .threads =>
      match Number.parse value with
      | .ok threads => .ok { given with threads := some threads }
      | .error _ => .error .badNumber
    | .format =>
      match formatOf? value with
      | some format => .ok { given with format := some format }
      | none => .error .badValue

/-- Looks at an argument without an option. A path is not empty. -/
def putPlace (given : Given) (slot : Slot) (value : String) : Except UsageFault Given :=
  if slot = .path ∧ value = "" then .error .badValue
  else .ok { given with places := given.places ++ [(slot, value)] }

/-- Looks at what waits. -/
def settle (given : Given) : Option Waiting → Except UsageFault Given
  | none => .ok given
  | some (.setting _ none) => .error .badValue
  | some (.setting setting (some value)) => given.set setting value
  | some (.place slot value) => given.putPlace slot value

end Given

/-- What was given so far, and what waits. -/
structure Progress where
  given : Given := {}
  waiting : Option Waiting := none
  deriving DecidableEq, Repr

namespace Progress

/-- Looks at what waits. -/
def settled (progress : Progress) : Except UsageFault Given :=
  progress.given.settle progress.waiting

/-- Whether the next argument is the value of an option, if it does not look like an
option. -/
def expectsValue (progress : Progress) : Bool :=
  match progress.waiting with
  | some (.setting _ none) => true
  | _ => false

/-- Begins an option, with its value if that is attached. -/
def begin (progress : Progress) (setting : Setting) (value : Option String) :
    Except UsageFault Progress := do
  let given ← progress.settled
  match value with
  | none => return ⟨given, some (.setting setting none)⟩
  | some value => return ⟨← given.set setting value, none⟩

/-- Takes the value of the option that expects one. -/
def takeValue (progress : Progress) (value : String) : Progress :=
  match progress.waiting with
  | some (.setting setting none) =>
    { progress with waiting := some (.setting setting (some value)) }
  | _ => progress

/-- Takes an option with a long name. -/
def takeLong (afterCommand : Bool) (progress : Progress) (name : String)
    (value : Option String) : Except UsageFault Progress :=
  match longSwitch? afterCommand name, value with
  | none, _ => .error .unknownArgument
  | some (.setting setting), value => progress.begin setting value
  | some .help, some _ => .error .unwantedValue
  | some .help, none => do
    let _ ← progress.settled
    throw .help

/-- Takes options by their letters. An equals sign between a letter and its value does
not belong to the value. -/
def takeShort (afterCommand : Bool) (progress : Progress) : List Char →
    Except UsageFault Progress
  | [] => .ok progress
  | letter :: rest =>
    match shortSwitch? afterCommand letter with
    | none => .error .unknownArgument
    | some .help => do
      let _ ← progress.settled
      throw .help
    | some (.setting setting) =>
      match rest with
      | [] => progress.begin setting none
      | '=' :: value => progress.begin setting (some (String.ofList value))
      | value => progress.begin setting (some (String.ofList value))

/-- Takes an argument without an option, for the first of the slots that are left. -/
def takePlace (progress : Progress) (slots : List Slot) (value : String) :
    Except UsageFault (Progress × List Slot) :=
  match slots with
  | [] => .error .unknownArgument
  | slot :: slots => do
    let given ← progress.settled
    return (⟨given, some (.place slot value)⟩, slots)

end Progress

/-- Reads the arguments after a command. -/
def afterVerb (slots : List Slot) (ended : Bool) (progress : Progress) :
    List String → Except UsageFault Progress
  | [] => .ok progress
  | argument :: rest => do
    let shape := if ended then .plain else shapeOf argument
    match shape with
    | .ending => afterVerb slots true progress rest
    | .long name value => afterVerb slots ended (← progress.takeLong true name value) rest
    | .short letters => afterVerb slots ended (← progress.takeShort true letters) rest
    | .plain =>
      if progress.expectsValue && !ended then
        afterVerb slots ended (progress.takeValue argument) rest
      else
        let (progress, slots) ← progress.takePlace slots argument
        afterVerb slots ended progress rest

/-- What a command works on, once all its arguments are looked at. -/
def commandOf (verb : Verb) (given : Given) : Except UsageFault Command := do
  let format := given.format.getD verb.usualFormat
  let some path := given.places.lookup .path | throw .missingArgument
  match verb with
  | .inspect => return .inspect path format
  | .scan => return .scan path format
  | .refs => return .references path format
  | .query =>
    let some word := given.places.lookup .word | throw .missingArgument
    return .query path word (given.places.lookup .pattern) format

/-- Asks for help about the command with the given names. -/
def helpAbout : List String → UsageFault
  | [] => .help
  | [name] => if (Verb.ofName? name).isSome || name = "help" then .help else .unknownCommand
  | _ => .unknownCommand

/-- What is wrong with a command line that has no command. -/
def withoutVerb (progress : Progress) : Except UsageFault Invocation := do
  let given ← progress.settled
  if given = {} then throw .nothing else throw .noCommand

/-- Reads a command line. The arguments after the command are looked at before what still
waits in front of it. -/
def read (ended : Bool) (progress : Progress) : List String → Except UsageFault Invocation
  | [] => withoutVerb progress
  | argument :: rest => do
    let verb := Verb.ofName? argument
    if ended then
      throw (if verb.isSome || argument = "help" then .unknownArgument else .unknownCommand)
    else match shapeOf argument with
      | .ending => read true progress rest
      | .long name value => read ended (← progress.takeLong false name value) rest
      | .short letters => read ended (← progress.takeShort false letters) rest
      | .plain =>
        if progress.expectsValue then read ended (progress.takeValue argument) rest
        else if argument = "help" then throw (helpAbout rest)
        else match verb with
          | none => throw .unknownCommand
          | some verb =>
            let inner ← (← afterVerb verb.slots false {} rest).settled
            let command ← commandOf verb inner
            let outer ← progress.settled
            return ⟨command, inner.log <|> outer.log, inner.threads <|> outer.threads⟩

end Arguments

/-- The command line that arguments make up. -/
def Invocation.parse (arguments : List String) : Except UsageFault Invocation :=
  Arguments.read false {} arguments

end ClassFile
