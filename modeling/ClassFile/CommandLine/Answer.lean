import ClassFile.CommandLine.Arguments
import ClassFile.Files.Discovery
import ClassFile.Record.Json
import ClassFile.Record.Summary

/-!
# Answers of the program

What a command gives, and how it is written as JSON or as lines of text. A batch is
written in the order of the names of its classes, and under one name in the order of the
sources; what failed follows in the order in which it came.
-/

namespace ClassFile

/-- What a command gives. -/
inductive Answer where
  | record (record : Record)
  | batch (path : String) (batch : Batch)
  | selection (query : Query) (size : Nat) (found : List Record)
      (diagnostics : List Diagnostic)
  | references (types : TypeSet)

namespace Batch

/-- Whether a class is written before another one, or in the same place. -/
def Parsed.precedes (a b : Parsed) : Bool :=
  let name (parsed : Parsed) := parsed.record.name.sourceName
  compare (name a) (name b) |>.then (compare a.source b.source) |>.isLE

/-- The classes in the order in which they are written. -/
def ordered (batch : Batch) : List Parsed := batch.classes.mergeSort Parsed.precedes

/-- A class in the report of a batch. -/
def Parsed.toJson (parsed : Parsed) : Json :=
  .object
    [("source", .string parsed.source),
      ("class_name", .string parsed.record.name.sourceName),
      ("version", .string parsed.record.version), ("sha256", .string parsed.digest.hex),
      ("super_class", .option TypeName.toJson parsed.record.superclass),
      ("imports", PackageSet.toJson parsed.record.imports),
      ("api", PackageSet.toJson parsed.record.apiUses)]

/-- A failure in the report of a batch. -/
def Failure.toJson (failure : Failure) : Json :=
  .object [("source", .string failure.source), ("error", .string failure.message)]

/-- The report of a batch at a path, which took some milliseconds. -/
def toJson (path : String) (elapsed : Nat) (batch : Batch) : Json :=
  .object
    [("root", .string path), ("classes_parsed", .nat batch.classes.length),
      ("failed", .nat batch.failures.length), ("duration_ms", .nat elapsed),
      ("classes", .list Parsed.toJson batch.ordered),
      ("failures", .list Failure.toJson batch.failures)]

/-- The line of a class: its name, its version and the start of its digest. -/
def Parsed.line (parsed : Parsed) : String :=
  parsed.record.name.sourceName ++ "  " ++ parsed.record.version ++ "  " ++
    String.ofList (parsed.digest.hex.toList.take 12) ++ "\n"

/-- The line of a failure. -/
def Failure.line (failure : Failure) : String :=
  "FAILED " ++ failure.source ++ ": " ++ failure.message ++ "\n"

/-- The report of a batch in lines, the last of which counts. -/
def summary (elapsed : Nat) (batch : Batch) : String :=
  String.join (batch.ordered.map Parsed.line) ++
    String.join (batch.failures.map Failure.line) ++
    toString batch.classes.length ++ " classes parsed, " ++
    toString batch.failures.length ++ " failed in " ++ toString elapsed ++ " ms\n"

end Batch

namespace Answer

/-- A text in each line. -/
def lines (texts : List String) : String :=
  String.join (texts.map (· ++ "\n"))

/-- An answer as JSON. -/
def toJson (elapsed : Nat) : Answer → Json
  | .record found => found.toJson
  | .batch path all => all.toJson path elapsed
  | .selection query size found diagnostics =>
    .object
      [("query", .string query.describe), ("classes_indexed", .nat size),
        ("matches", .list (fun record => .string record.name.sourceName) found),
        ("diagnostics", .list (fun diagnostic => .string diagnostic.message) diagnostics)]
  | .references types => TypeSet.toJson types

/-- An answer in lines of text. -/
def toText (elapsed : Nat) : Answer → String
  | .record found => found.summary
  | .batch _ all => all.summary elapsed
  | .selection _ _ found _ => lines (found.map fun record => record.name.sourceName)
  | .references types => lines (types.toList.map TypeName.dotted)

/-- An answer in the form that is asked for. -/
def render (format : OutputFormat) (elapsed : Nat) (answer : Answer) : String :=
  match format with
  | .json => (answer.toJson elapsed).pretty ++ "\n"
  | .text => answer.toText elapsed

end Answer

end ClassFile
