import ClassFile.Record.Basic

/-!
# What a decoding tells

While a class file is decoded, a listener is told what is met, in the order of the
file. It may start other decodings meanwhile; what those told stands in its notes
between the events at which it started them.
-/

namespace ClassFile

/-- Something that is met in a class file. -/
inductive Event where
  | version (minor major : UInt16)
  /-- The header is read. The record holds no more than the header. -/
  | classStart (record : Record)
  | superclass (type : TypeName)
  | interfaces (types : List TypeName)
  | field (member : Member)
  | method (member : Member)
  | deprecated
  | signature (text : String)
  | constant (value : Value)
  | annotated (found : Annotation)
  /-- A default value, and its method as it was before. -/
  | annotationDefault (method : Member) (value : Value)
  /-- The annotations that follow stand on this parameter. -/
  | parameter (index : UInt8)
  | innerClass (entry : InnerClass)
  | enclosingMethod (place : EnclosingMethod)
  /-- A method is called by an instruction. -/
  | methodCalled (access : Access) (owner : TypeName) (name descriptor : String)
  /-- A class is named in a descriptor or signature. -/
  | named (type : TypeName)
  /-- A type is referred to by something with these access flags. -/
  | referred (type : TypeName) (access : Access)
  /-- All fields and methods are read. -/
  | membersEnd
  | classEnd

/-- What a listener remembers of a decoding. -/
inductive Note where
  | told (event : Event)
  /-- Another decoding ran: what was told in it, how it ended, and how many decodings
  were still going on after it. -/
  | ran (notes : List Note) (outcome : Except Fault (Option Record)) (depth : Nat)

end ClassFile
