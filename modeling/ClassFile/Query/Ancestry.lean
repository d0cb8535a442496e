import ClassFile.Query.Basic

/-!
# Ancestry

A query that a record does not settle is put to the record of the superclass, and so on
upwards. The ascent ends with an answer, at a class that has no superclass, at a
superclass of which there is no record, or at one that it has met before. The last two
are worth a diagnostic; whichever of the last three it is, the answer is "no".

Every class that the ascent comes to is one of those that have a record, and none is met
twice. So an ascent takes no more steps than there are such classes, and a bound on
their number is a bound on the steps.
-/

namespace ClassFile

/-- What stopped an ascent short of an answer. -/
inductive Diagnostic where
  /-- A superclass has no record. -/
  | unresolved (query : Query) (type missing : TypeName)
  /-- A superclass was met before. -/
  | cyclic (query : Query) (type repeated : TypeName)
  deriving DecidableEq, Repr

/-- What is said about an ascent that was stopped. -/
def Diagnostic.message : Diagnostic → String
  | unresolved query type missing =>
    "while traversing the type tree searching " ++ query.describe ++ " on " ++ type.dotted ++
      ", cannot find class " ++ missing.dotted
  | cyclic query type repeated =>
    "type tree of " ++ type.dotted ++ " loops back to " ++ repeated.dotted ++
      " while searching " ++ query.describe

/-- How an ascent ends. -/
inductive Verdict where
  | settled (answer : Bool)
  /-- No superclass is left to ask. -/
  | atRoot
  | stopped (diagnostic : Diagnostic)
  deriving DecidableEq, Repr

namespace Verdict

/-- Whether the class has the property. -/
def holds : Verdict → Bool
  | settled answer => answer
  | _ => false

/-- What there is to report. -/
def diagnostic? : Verdict → Option Diagnostic
  | stopped diagnostic => some diagnostic
  | _ => none

end Verdict

namespace Query

/-- Puts the query to a record and, as long as it is open, to the superclass. The names
met so far are given, and a bound on how many more there can be. -/
def ascend (query : Query) (find : TypeName → Option Record) :
    (bound : Nat) → (met : TypeSet) → Record → Verdict
  | bound, met, record =>
    match query.verdict? record with
    | some answer => .settled answer
    | none =>
      match record.superclass with
      | none => .atRoot
      | some superclass =>
        if superclass ∈ met then .stopped (.cyclic query record.name superclass)
        else
          match bound, find superclass with
          | bound + 1, some next => ascend query find bound (met.insert superclass) next
          | _, _ => .stopped (.unresolved query record.name superclass)

/-- Puts the query to a record, where no more than `bound` names have records to be
found. -/
def judge (query : Query) (find : TypeName → Option Record) (bound : Nat) (record : Record) :
    Verdict :=
  query.ascend find bound {record.name} record

end Query

end ClassFile
