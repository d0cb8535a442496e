import ClassFile.Decoder.Basic
import ClassFile.Signature.Scan

/-!
# Collecting references

Whatever names a type refers to it. A mention of an array refers to its innermost
element, and primitive types are not referred to at all. The package of a type that is
referred to is imported, and it belongs to the interface of a public class if what
refers to it can be seen from other packages.

A class constant counts once, at the first mention. A descriptor refers to the classes
that it names one after the other, so one that turns out to be malformed has referred
to the classes in front of the fault.
-/

namespace ClassFile.Decode

variable (context : Context)

/-- Adds a package to the exposed ones if the class is public and the flags are visible. -/
def exposePackage (package : Package) (access : Access) : Decode Unit :=
  modify fun s =>
    if access.isVisible then { s with api := s.api.map (·.insert package) } else s

/-- A type is referred to by something with these access flags. -/
def refer (type : TypeName) (access : Access) : Decode Unit := do
  let type := type.referent
  if type.isPrimitive then return
  let package ← packageOf context type
  if package.primitive then return
  modify fun s => { s with references := s.references.insert type }
  exposePackage package access
  modify fun s => { s with imports := s.imports.insert package }
  tell context (.referred type access)

/-- The type of an annotation, or of a value in one, is exposed by what it stands on. -/
def expose (type : TypeName) (access : Access) : Decode Unit := do
  if (← get).api.isSome ∧ access.isVisible then
    let package ← packageOf context type
    unless package.primitive do exposePackage package access

/-- A class is named in a descriptor or signature. -/
def mention (access : Access) (name : String) : Decode Unit := do
  let type := TypeName.ofText name
  tell context (.named type)
  refer context type access

/-- Refers to the classes that a descriptor or signature names. -/
def referText (text : String) (access : Access) : Decode Unit := do
  let scan := Signature.scan text
  scan.names.forM (mention context access)
  match scan.fault with
  | none => return
  | some fault => throw fault

/-- Refers to the classes that the descriptor at an index of the pool names. -/
def referDescriptor (index : UInt16) (access : Access) : Decode Unit := do
  referText context (← utf8 index) access

/-- Refers to the class at an index of the pool, unless it was referred to before. An
index of anything else is passed over. -/
def referClassConstant (index : UInt16) : Decode Unit := do
  let name ← modifyGet fun s =>
    let (name, pool) := s.pool.markReferred index
    (name, { s with pool })
  match name with
  | some name => refer context (.ofText name) 0
  | none => return

end ClassFile.Decode
