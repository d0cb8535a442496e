import ClassFile.Layout
import ClassFile.Layout.Text

/-!
# The layout of the constant pool

The entries of a pool as they are written, each a tag and a body, behind the number of slots. What
an entry stands for in the table is told apart from how it is written: of the entries that are
passed over, the table keeps the tag alone.

`ClassFile.Pool.Holds` says what there is in a table in which the entries stand one behind the other
from slot one on, the wide ones in two slots.
-/

namespace ClassFile

/-- The kinds of entries that are passed over. -/
inductive SkippedKind where
  | methodHandle
  | methodType
  | dynamic
  | invokeDynamic
  | moduleInfo
  | packageInfo
  deriving DecidableEq, Repr

namespace SkippedKind

def tag : SkippedKind → UInt8
  | methodHandle => 15
  | methodType => 16
  | dynamic => 17
  | invokeDynamic => 18
  | moduleInfo => 19
  | packageInfo => 20

/-- The number of bytes behind the tag. -/
def width : SkippedKind → Nat
  | methodHandle => 3
  | methodType | moduleInfo | packageInfo => 2
  | dynamic | invokeDynamic => 4

end SkippedKind

def RefKind.tag : RefKind → UInt8
  | field => 9
  | method => 10
  | interfaceMethod => 11

/-- An entry as it is written. -/
inductive RawEntry where
  | utf8 (text : String)
  | integer (value : Int32)
  | float (bits : UInt32)
  | long (value : Int64)
  | double (bits : UInt64)
  | classInfo (name : UInt16)
  | string (text : UInt16)
  | ref (kind : RefKind) (owner member : UInt16)
  | nameAndType (name descriptor : UInt16)
  | skipped (kind : SkippedKind) (operands : Bytes)
  deriving DecidableEq, Repr

namespace RawEntry

/-- What stands in the table for an entry, before anything refers to it. -/
def entry : RawEntry → Entry
  | utf8 text => .utf8 text
  | integer value => .integer value
  | float bits => .float bits
  | long value => .long value
  | double bits => .double bits
  | classInfo name => .classInfo name false
  | string text => .string text
  | ref kind owner member => .ref kind owner member
  | nameAndType name descriptor => .nameAndType name descriptor
  | skipped kind _ => .skipped kind.tag

def tag : RawEntry → UInt8
  | utf8 _ => 1
  | integer _ => 3
  | float _ => 4
  | long _ => 5
  | double _ => 6
  | classInfo _ => 7
  | string _ => 8
  | ref kind _ _ => kind.tag
  | nameAndType _ _ => 12
  | skipped kind _ => kind.tag

def body : RawEntry → Bytes
  | utf8 text => Form.count.encode (ModifiedUtf8.encode text).length ++ ModifiedUtf8.encode text
  | integer value => Form.i4.encode value
  | float bits => Form.u4.encode bits
  | long value => Form.u8.encode value.toUInt64
  | double bits => Form.u8.encode bits
  | classInfo name => Form.u2.encode name
  | string text => Form.u2.encode text
  | ref _ owner member => Form.u2.encode owner ++ Form.u2.encode member
  | nameAndType name descriptor => Form.u2.encode name ++ Form.u2.encode descriptor
  | skipped _ operands => operands

/-- The tag stands in front. The length of a text is a number of two bytes. -/
def form : Form RawEntry where
  encode raw := raw.tag :: raw.body
  Fits
    | utf8 text => Form.count.Fits (ModifiedUtf8.encode text).length
    | skipped kind operands => operands.length = kind.width
    | _ => True

/-- The number of slots that entries take together. -/
def slots : List RawEntry → Nat
  | [] => 0
  | raw :: raws => raw.entry.width + slots raws

/-- The slot of the entry at an index. -/
def slotOf (raws : List RawEntry) (index : Nat) : Nat := 1 + slots (raws.take index)

end RawEntry

namespace Pool

/-- Entries behind a number of slots, which may be larger than they need. -/
def encode (count : Nat) (raws : List RawEntry) : Bytes :=
  Form.count.encode count ++ raws.flatMap RawEntry.form.encode

/-- The table has so many slots, and these entries in them. -/
structure Holds (pool : Pool) (count : Nat) (raws : List RawEntry) : Prop where
  size : pool.size = count
  /-- Each entry is in its slot. -/
  entry : ∀ index (h : index < raws.length),
    pool.entries[RawEntry.slotOf raws index]? = some raws[index].entry
  /-- Nothing is in any other slot. -/
  unused : ∀ slot < count, (∀ index < raws.length, slot ≠ RawEntry.slotOf raws index) →
    pool.entries[slot]? = some .unused

end Pool

instance : DecidablePred RawEntry.form.Fits
  | .utf8 text => inferInstanceAs (Decidable ((ModifiedUtf8.encode text).length < UInt16.size))
  | .skipped kind operands => inferInstanceAs (Decidable (operands.length = kind.width))
  | .integer _ | .float _ | .long _ | .double _ | .classInfo _ | .string _ | .ref _ _ _
  | .nameAndType _ _ => .isTrue trivial

end ClassFile
