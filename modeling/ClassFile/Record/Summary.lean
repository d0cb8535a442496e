import ClassFile.Record.Basic
import ClassFile.Text.Quoted

/-!
# Summaries of records

What is known about a class in a few lines, a heading and a content in each. Lines for
what a class need not have are left out if it does not.
-/

namespace ClassFile.Record

/-- One line: the heading, filled up to twelve characters, and the content. -/
def summaryLine (heading content : String) : String :=
  heading ++ String.ofList (List.replicate (12 - heading.length) ' ') ++ content ++ "\n"

/-- Texts with commas between them. -/
def enumerated (texts : List String) : String := ", ".intercalate texts

/-- The packages of a set with commas between them. -/
def enumeratedPackages (packages : PackageSet) : String :=
  enumerated (packages.toList.map Package.dotted)

/-- What is known about a class in a few lines. -/
def summary (record : Record) : String :=
  let line := summaryLine
  let listed (heading : String) (texts : List String) :=
    if texts.isEmpty then "" else line heading (enumerated texts)
  line "class" record.name.sourceName ++
    line "version" (record.version ++ " (" ++ record.release.environment ++ ")") ++
    line "access" ("0x" ++ String.ofList (Text.hexPadded 4 record.effectiveAccess.toNat)) ++
    listed "extends" (record.superclass.map TypeName.dotted).toList ++
    listed "implements" (record.interfaces.map TypeName.dotted) ++
    listed "source" record.sourceFile.toList ++
    line "members" (toString record.fields.size ++ " fields, " ++
      toString record.methods.size ++ " methods") ++
    listed "annotations" (record.annotationTypes.toList.map TypeName.sourceName) ++
    line "imports" (enumeratedPackages record.imports) ++
    line "api" (enumeratedPackages record.apiUses)

end ClassFile.Record
