import ClassFile.Session

/-!
# The layout of a class file

What is in a class file before anything is looked up or decided: numbers, the bytes of the
pool, and for each member and each attribute the indices of its names. A `Layout` that fits
is written as a string of bytes, numbers with the most significant byte first and every table
after the number of its elements.

A decoder reads and acts by turns. The second part of this file has the same actions for a
layout whose bytes were read before: they ask the pool and collect, and do not touch the
input. The bodies of attributes stay byte strings here, and are read when their attribute is
acted upon.
-/

namespace ClassFile

/-! ### How things are written -/

/-- A way of writing things of a kind, and which of them can be written. -/
structure Form (ρ : Type) where
  encode : ρ → Bytes
  Fits : ρ → Prop

namespace Bytes

/-- The last bytes of a number, the most significant first. -/
def bigEndian : (width : Nat) → Nat → Bytes
  | 0, _ => []
  | width + 1, n => bigEndian width (n / 256) ++ [UInt8.ofNat n]

end Bytes

namespace Form

variable {ρ σ : Type}

/-- Any bytes of a given number. -/
def bytes (n : Nat) : Form Bytes where
  encode bytes := bytes
  Fits bytes := bytes.length = n

/-- A number of two bytes. -/
def u2 : Form UInt16 where
  encode n := Bytes.bigEndian 2 n.toNat
  Fits _ := True

/-- A number of four bytes. -/
def u4 : Form UInt32 where
  encode n := Bytes.bigEndian 4 n.toNat
  Fits _ := True

/-- A signed number of four bytes. -/
def i4 : Form Int32 where
  encode n := u4.encode n.toUInt32
  Fits _ := True

/-- A number of eight bytes. -/
def u8 : Form UInt64 where
  encode n := Bytes.bigEndian 8 n.toNat
  Fits _ := True

/-- A number of things that follow, in two bytes. -/
def count : Form Nat where
  encode n := Bytes.bigEndian 2 n
  Fits n := n < UInt16.size

/-- One thing and then another, whose form may depend on the first. -/
def andThen (form : Form ρ) (next : ρ → Form σ) : Form (ρ × σ) where
  encode raw := form.encode raw.1 ++ (next raw.1).encode raw.2
  Fits raw := form.Fits raw.1 ∧ (next raw.1).Fits raw.2

/-- The same form, if something else is the case. -/
def provided (p : Prop) (form : Form ρ) : Form ρ where
  encode raw := form.encode raw
  Fits raw := p ∧ form.Fits raw

/-- A number of things of the same form. -/
def times (n : Nat) (form : Form ρ) : Form (List ρ) where
  encode raws := raws.flatMap form.encode
  Fits raws := raws.length = n ∧ ∀ raw ∈ raws, form.Fits raw

/-- A list after the number of its elements. -/
def table (form : Form ρ) : Form (List ρ) where
  encode raws := count.encode raws.length ++ raws.flatMap form.encode
  Fits raws := count.Fits raws.length ∧ ∀ raw ∈ raws, form.Fits raw

end Form

/-! ### Attributes, members and classes -/

/-- An attribute: the index of its name, and its body. -/
structure RawAttribute where
  name : UInt16
  body : Bytes
  deriving DecidableEq, Repr

/-- An attribute is written with the length of its body. -/
def RawAttribute.form : Form RawAttribute where
  encode raw :=
    Form.u2.encode raw.name ++ (Bytes.bigEndian 4 raw.body.length ++ raw.body)
  Fits raw := raw.body.length ≤ attributeLimit

/-- A field or method: its flags, the indices of its name and descriptor, and its
attributes. -/
structure RawMember where
  access : Access
  name : UInt16
  descriptor : UInt16
  attributes : List RawAttribute
  deriving DecidableEq, Repr

/-- A member is written from its flags to its attributes. -/
def RawMember.form : Form RawMember where
  encode raw :=
    Form.u2.encode raw.access ++ (Form.u2.encode raw.name ++ (Form.u2.encode raw.descriptor ++
      RawAttribute.form.table.encode raw.attributes))
  Fits raw := RawAttribute.form.table.Fits raw.attributes

/-- The pool that bytes stand for, if they are all of it, from the count on. -/
def Pool.ofBytes (bytes : Bytes) : Option Pool :=
  match Pool.read ⟨.ofBytes bytes, .empty⟩ with
  | .ok _ ⟨⟨_, []⟩, pool⟩ => some pool
  | _ => none

/-- The first part of a class file, up to the index of the class. -/
structure RawHeader where
  minor : UInt16
  major : UInt16
  /-- The pool, from the number of its slots on. -/
  pool : Bytes
  access : Access
  name : UInt16
  deriving DecidableEq, Repr

namespace RawHeader

/-- The magic number stands in front, and the pool follows the version. -/
def form : Form RawHeader where
  encode raw :=
    Form.u4.encode Decode.magic ++ (Form.u2.encode raw.minor ++ (Form.u2.encode raw.major ++
      (raw.pool ++ (Form.u2.encode raw.access ++ Form.u2.encode raw.name))))
  Fits raw := (Pool.ofBytes raw.pool).isSome

/-- The pool that the bytes of a header stand for. -/
def constants (raw : RawHeader) : Pool := (Pool.ofBytes raw.pool).getD .empty

end RawHeader

/-- The rest of a class file. -/
structure RawBody where
  /-- The index of the superclass, or zero. -/
  superclass : UInt16
  interfaces : List UInt16
  fields : List RawMember
  methods : List RawMember
  attributes : List RawAttribute
  deriving DecidableEq, Repr

/-- The parts of a class in their order. -/
def RawBody.form : Form RawBody where
  encode raw :=
    Form.u2.encode raw.superclass ++ (Form.u2.table.encode raw.interfaces ++
      (RawMember.form.table.encode raw.fields ++ (RawMember.form.table.encode raw.methods ++
        RawAttribute.form.table.encode raw.attributes)))
  Fits raw :=
    Form.u2.table.Fits raw.interfaces ∧ RawMember.form.table.Fits raw.fields ∧
      RawMember.form.table.Fits raw.methods ∧ RawAttribute.form.table.Fits raw.attributes

/-- A class file, taken apart. -/
structure Layout extends RawHeader, RawBody
  deriving DecidableEq, Repr

namespace Layout

/-- A class file is written from front to back. -/
def form : Form Layout where
  encode layout := RawHeader.form.encode layout.toRawHeader ++ RawBody.form.encode layout.toRawBody
  Fits layout := RawHeader.form.Fits layout.toRawHeader ∧ RawBody.form.Fits layout.toRawBody

/-- The fields or the methods. -/
def members (layout : Layout) : LastMember → List RawMember
  | .field => layout.fields
  | .method => layout.methods

end Layout

/-! ### Whether things can be written -/

section Fits

variable {ρ : Type} {form : Form ρ}

instance : DecidablePred Form.u2.Fits := fun _ => inferInstanceAs (Decidable True)

instance [DecidablePred form.Fits] : DecidablePred form.table.Fits := fun raws =>
  inferInstanceAs (Decidable (raws.length < UInt16.size ∧ ∀ raw ∈ raws, form.Fits raw))

instance : DecidablePred RawAttribute.form.Fits := fun raw =>
  inferInstanceAs (Decidable (raw.body.length ≤ attributeLimit))

instance : DecidablePred RawMember.form.Fits := fun raw =>
  inferInstanceAs (Decidable (RawAttribute.form.table.Fits raw.attributes))

instance : DecidablePred RawHeader.form.Fits := fun raw =>
  inferInstanceAs (Decidable ((Pool.ofBytes raw.pool).isSome = true))

instance : DecidablePred RawBody.form.Fits := fun raw =>
  inferInstanceAs (Decidable (Form.u2.table.Fits raw.interfaces ∧
    RawMember.form.table.Fits raw.fields ∧ RawMember.form.table.Fits raw.methods ∧
    RawAttribute.form.table.Fits raw.attributes))

instance : DecidablePred Layout.form.Fits := fun layout =>
  inferInstanceAs (Decidable (RawHeader.form.Fits layout.toRawHeader ∧
    RawBody.form.Fits layout.toRawBody))

end Fits

/-! ### Acting on what was read -/

namespace Decode

variable (context : Context)

/-- What `oneAttribute` does with an attribute. -/
def attributeOf (onCode : Decode Unit) (site : Site) (access : Access) (raw : RawAttribute) :
    Decode Unit := do
  let kind := AttributeKind.ofName (← utf8 raw.name)
  within raw.body (attributeBody context onCode site access kind)

/-- What `attributes` does with a table of attributes. -/
def attributesOf (onCode : Decode Unit) (site : Site) (access : Access)
    (raws : List RawAttribute) : Decode Unit :=
  raws.forM (attributeOf context onCode site access)

/-- What `memberHeader` makes of the header of a member. -/
def memberHeaderOf (raw : RawMember) : Decode MemberHeader := do
  let name ← utf8 raw.name
  let descriptor ← utf8 raw.descriptor
  return ⟨raw.access, name, descriptor, raw.descriptor⟩

/-- What `field` does with a field. -/
def fieldOf (raw : RawMember) : Decode Unit := do
  let header ← memberHeaderOf raw
  openField context header
  attributesOf context (pure ()) .field header.access raw.attributes

/-- What `method` does with a method. -/
def methodOf (raw : RawMember) : Decode Unit := do
  let header ← memberHeaderOf raw
  openMethod context header
  let onCode := if (← get).walking then code context else pure ()
  attributesOf context onCode (if header.isConstructor then .constructor else .method)
    header.access raw.attributes

/-- What `interfaces` does with the indices of the interfaces. -/
def interfacesOf (access : Access) (indices : List UInt16) : Decode Unit := do
  keepInterfaces context (← indices.mapM (interfaceAt context access))

/-- What `classHeader` does with the first part of a class file. -/
def classHeaderOf (raw : RawHeader) : Decode (Record × Bool) := do
  tell context (.version raw.minor raw.major)
  modify fun s => { s with pool := raw.constants }
  referPool context
  let orphan := (← get).pool.hasOrphan
  let name ← classAt raw.name
  let record := Record.header name raw.major raw.minor raw.access
  openClass context record
  return (record, orphan)

/-- What `classBody` does with the rest of it. -/
def classBodyOf (orphan : Bool) (raw : RawBody) : Decode Record := do
  let access := (← record).access
  superclassAt context access raw.superclass
  interfacesOf context access raw.interfaces
  raw.fields.forM (fieldOf context)
  prepareWalks orphan
  raw.methods.forM (methodOf context)
  tell context .membersEnd
  modify fun s => { s with last := none }
  attributesOf context (pure ()) .type access raw.attributes
  finish

/-- What the decoding of a class does without a listener. -/
def classOf (layout : Layout) : Decode Record := do
  let (_, orphan) ← classHeaderOf context layout.toRawHeader
  classBodyOf context orphan layout.toRawBody

end Decode

end ClassFile
