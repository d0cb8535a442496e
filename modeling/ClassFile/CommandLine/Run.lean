import ClassFile.CommandLine.Answer
import ClassFile.CommandLine.Settings

/-!
# Running a command

A command line, an environment and a disk make up all that a run depends on. Mistakes in
the command line come first, then those in the environment. A query is read before
anything on the disk.

A run that fails says why, and on lines of its own what the reason for that is.
-/

namespace ClassFile

/-- Why a command gives no answer, with what is behind it. -/
structure Refusal where
  message : String
  cause : Option String := none
  deriving DecidableEq, Repr

namespace Refusal

/-- A text of which all lines are indented. -/
def indented (text : String) : String :=
  "\n".intercalate ((text.splitOn "\n").map ("    " ++ ·))

/-- Why a command gives no answer, in words. -/
def render (refusal : Refusal) : String :=
  "Error: " ++ refusal.message ++
    (refusal.cause.elim "" fun cause => "\n\nCaused by:\n" ++ indented cause) ++ "\n"

end Refusal

namespace Command

/-- The form of the output. -/
def format : Command → OutputFormat
  | inspect _ format => format
  | scan _ format => format
  | query _ _ _ format => format
  | references _ format => format

/-- The path that a command works on. -/
def path : Command → String
  | inspect file _ => file
  | scan path _ => path
  | query path _ _ _ => path
  | references file _ => file

/-- The bytes of a class file. -/
def bytesOf (disk : Disk) (file : String) : Except Refusal Bytes := do
  let bytes := (disk file).bind fun place => place.tree.contents
  bytes.mapError fun fault => ⟨"Failed to read class file: " ++ file, some fault.message⟩

/-- What comes of decoding a class file. -/
def decoded {α : Type} (file : String) (outcome : Except Fault α) : Except Refusal α :=
  outcome.mapError fun fault => ⟨"Failed to parse " ++ file, some fault.message⟩

/-- Decodes all classes at a path. -/
def batchAt (disk : Disk) (path : String) : Except Refusal Batch :=
  (Discovery.scan disk path).mapError fun _ => ⟨"Path does not exist: " ++ path, none⟩

/-- What a command gives. -/
def answer (disk : Disk) : Command → Except Refusal Answer
  | inspect file _ => do
    let bytes ← bytesOf disk file
    return .record (← decoded file (decode bytes))
  | scan path _ => return .batch path (← batchAt disk path)
  | query path word pattern _ => do
    let query ← (Query.parse word pattern).mapError fun fault => ⟨fault.message, none⟩
    let catalog := (← batchAt disk path).catalog
    let (found, asked) := catalog.select query
    return .selection query catalog.size found asked.takeDiagnostics.1
  | references file _ => do
    let bytes ← bytesOf disk file
    return .references (← decoded file (Session.references {} bytes {}).1)

end Command

/-- How a run of the program ends. -/
inductive Ending where
  | answered (output : String)
  | refused (refusal : Refusal)
  | misused (fault : UsageFault)
  deriving DecidableEq, Repr

namespace Ending

/-- The status that the program gives back: asking for help is no mistake. -/
def status : Ending → UInt8
  | answered _ => 0
  | refused _ => 1
  | misused .help => 0
  | misused _ => 2

end Ending

namespace Program

/-- What can be asked. -/
def usage : String :=
  "Usage: class-analyzer [--log FILTER] [--threads N] COMMAND\n\n" ++
    "Commands:\n" ++
    "  inspect FILE                  Parse one class file and print its facts\n" ++
    "  scan PATH                     Parse every class file in a directory tree or jar\n" ++
    "  query PATH QUERY [PATTERN]    List the classes under PATH that match a query\n" ++
    "  refs FILE                     Print the types one class file refers to\n\n" ++
    "Options:\n" ++
    "  -f, --format json|text        Form of the output\n"

/-- The answer to a command line, with the form that is asked for. -/
def answer (arguments : List String) (environment : Environment) (disk : Disk) :
    Except Ending (OutputFormat × Answer) := do
  let invocation ← (Invocation.parse arguments).mapError .misused
  let _ ← (Settings.resolve invocation environment).mapError fun fault =>
    .refused ⟨fault.message, some fault.why.message⟩
  let answer ← (invocation.command.answer disk).mapError .refused
  return (invocation.command.format, answer)

/-- How a run of the program ends, if it takes some milliseconds. -/
def run (arguments : List String) (environment : Environment) (disk : Disk) (elapsed : Nat) :
    Ending :=
  match answer arguments environment disk with
  | .error ending => ending
  | .ok (format, answer) => .answered (answer.render format elapsed)

end Program

end ClassFile
