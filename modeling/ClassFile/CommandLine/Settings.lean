import ClassFile.CommandLine.Arguments
import ClassFile.Text.Blank
import ClassFile.Text.Quoted

/-!
# Settings

What is not given on the command line may be given by the environment. A blank value in
the environment counts as none. There is always at least one thread.
-/

namespace ClassFile

/-- The environment of the program, as far as it asks for it. -/
structure Environment where
  log : Option String
  threads : Option String
  deriving DecidableEq, Repr

/-- A number of threads in the environment that is none. -/
structure SettingsFault where
  raw : String
  why : NumberFault
  deriving DecidableEq, Repr

/-- What is said about such a number, without the reason. -/
def SettingsFault.message (fault : SettingsFault) : String :=
  "CLASS_ANALYZER_THREADS is not a number: " ++ Text.quoted fault.raw

/-- How the program is to run. -/
structure Settings where
  /-- What is to be logged. -/
  log : String
  threads : Option Nat
  deriving DecidableEq, Repr

namespace Settings

/-- A value of the environment, unless it is blank. -/
def present (value : Option String) : Option String :=
  value.filter fun text => Text.trimmed text ≠ ""

/-- What is logged unless something else is asked for. -/
def usualLog : String := "warn"

/-- The number of threads: from the command line if it is given there, and otherwise from
the environment, where blanks around it do not count. -/
def threadsOf (given : Option Nat) (environment : Option String) :
    Except SettingsFault (Option Nat) :=
  match given, present environment with
  | some threads, _ => .ok (some (max threads 1))
  | none, none => .ok none
  | none, some raw =>
    match Number.parse (Text.trimmed raw) with
    | .ok threads => .ok (some (max threads 1))
    | .error why => .error ⟨raw, why⟩

/-- How the program is to run for an invocation in an environment. -/
def resolve (invocation : Invocation) (environment : Environment) :
    Except SettingsFault Settings := do
  let threads ← threadsOf invocation.threads environment.threads
  return ⟨(invocation.log <|> present environment.log).getD usualLog, threads⟩

end Settings

end ClassFile
