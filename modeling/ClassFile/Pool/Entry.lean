import ClassFile.Decimal.Style
import ClassFile.Text.Quoted

/-!
# Constant pool entries

What one slot of the constant pool holds. Entries that refer to other entries keep
the raw index, because a reference may point forward. Floating-point constants keep
their bits, so that no bit pattern of a NaN is lost.

`ClassFile.Entry.describe` is the form in which messages show an entry.
-/

namespace ClassFile

/-- Which kind of member a reference is to. -/
inductive RefKind where
  | field
  | method
  | interfaceMethod
  deriving DecidableEq, Repr

/-- The content of one slot. -/
inductive Entry where
  /-- Slot zero, the shadow of a wide constant, or what follows an early end. -/
  | unused
  | utf8 (text : String)
  | integer (value : Int32)
  | float (bits : UInt32)
  | long (value : Int64)
  | double (bits : UInt64)
  /-- A class; `referred` once some member reference was seen to name it. -/
  | classInfo (name : UInt16) (referred : Bool)
  | string (text : UInt16)
  /-- A member: its class, and its name and descriptor. -/
  | ref (kind : RefKind) (owner member : UInt16)
  | nameAndType (name descriptor : UInt16)
  /-- A well-formed entry of a kind that nothing here asks for. -/
  | skipped (tag : UInt8)
  deriving DecidableEq, Repr

/-- How numbers are shown in messages: with a point from a ten-thousandth up to ten
quadrillions. -/
def Entry.numberStyle : Decimal.Style where
  least := -4
  greatest := 15
  plus := false
  tie := .up
  nan := "NaN"
  infinity negative := if negative then "-inf" else "inf"

/-- The name of a reference kind in messages. -/
def RefKind.describe : RefKind → String
  | .field => "Field"
  | .method => "Method"
  | .interfaceMethod => "InterfaceMethod"

/-- An entry as messages show it. -/
def Entry.describe : Entry → String
  | .unused => "Unused"
  | .utf8 text => s!"Utf8({Text.quoted text})"
  | .integer value => s!"Integer({value.toInt})"
  | .float bits => s!"Float({numberStyle.render .single bits.toNat})"
  | .long value => s!"Long({value.toInt})"
  | .double bits => s!"Double({numberStyle.render .double bits.toNat})"
  | .classInfo name referred =>
    s!"Class \x7b name_index: {name.toNat}, referred: {referred} \x7d"
  | .string text => s!"String \x7b string_index: {text.toNat} \x7d"
  | .ref kind owner member =>
    s!"Ref \x7b kind: {kind.describe}, class_index: {owner.toNat}, " ++
      s!"name_and_type_index: {member.toNat} \x7d"
  | .nameAndType name descriptor =>
    s!"NameAndType \x7b name_index: {name.toNat}, descriptor_index: {descriptor.toNat} \x7d"
  | .skipped tag => s!"Skipped({tag.toNat})"

/-- How many slots an entry takes: wide constants shadow the slot after them. -/
def Entry.width : Entry → Nat
  | .long _ => 2
  | .double _ => 2
  | _ => 1

theorem Entry.width_pos (entry : Entry) : 0 < entry.width := by
  cases entry <;> simp [width]

theorem Entry.width_le_two (entry : Entry) : entry.width ≤ 2 := by
  cases entry <;> simp [width]

end ClassFile
