import ClassFile.Pool.Entry
import ClassFile.Text.ModifiedUtf8

/-!
# Faults

Everything that can be wrong with a class file, by cause, and the one place where the
wording lives. A fault ends the decoding of its file.
-/

namespace ClassFile

/-- The deepest nesting of type arguments, and of element values, that is accepted. -/
def nestingLimit : Nat := 255

/-- Why a text is no descriptor or signature. -/
inductive DescriptorFault where
  /-- There is no text at all. -/
  | empty
  /-- The text stops inside a type. -/
  | ended
  /-- The text stops where only this delimiter could have closed a list. -/
  | missing (delimiter : Char)
  /-- No type begins with this byte, given as the character of the same number. -/
  | unexpected (byte : Char)
  /-- A formal type parameter has no colon. -/
  | noIdentifier
  /-- A class type has no name. -/
  | noClassName
  /-- Type arguments are nested too deeply. -/
  | tooDeep
  deriving DecidableEq, Repr

/-- Why a text has no list of argument types, or no return type. -/
inductive MethodFault where
  /-- It does not begin with a parenthesis. -/
  | notOpened
  /-- A class name has no semicolon. -/
  | unterminated
  /-- Something else stands where an argument type should. -/
  | malformed
  /-- There is no pair of parentheses with a type after it. -/
  | notMethod
  deriving DecidableEq, Repr

/-- What was looked for in the pool. -/
inductive Expected where
  | utf8
  | classInfo
  | nameAndType
  | methodRef
  | integer
  | long
  | float
  | double
  deriving DecidableEq, Repr

/-- Why a class file cannot be read. -/
inductive Fault where
  /-- The file does not begin with the magic number. -/
  | badMagic (found : UInt32)
  /-- Fewer than `wanted` bytes are left at `offset`. -/
  | endOfInput (offset wanted : Nat)
  | text (why : TextFault)
  /-- The pool declares no slot, not even the first. -/
  | emptyPool
  /-- The tag was given up before the format was published. -/
  | reservedTag (slot : Nat)
  | unknownTag (tag : UInt8) (slot : Nat)
  | indexOutOfRange (index : UInt16)
  /-- An entry of another kind stands where one was expected. -/
  | wrongEntry (expected : Expected) (index : UInt16) (found : Entry)
  /-- The entry is no constant that a field could have. -/
  | notConstant (index : UInt16) (found : Entry)
  | descriptor (source : String) (why : DescriptorFault)
  | method (source : String) (why : MethodFault)
  /-- The text names no type of the source language. -/
  | notType (source : String)
  /-- A table of jumps whose highest key lies below its lowest. -/
  | switchBounds (low high : Int32)
  /-- A list of key and jump pairs with a negative length. -/
  | switchPairs (pairs : Int32)
  /-- An annotation on a kind of type use that the format does not have. -/
  | typeTarget (target : UInt8)
  /-- An element value with a tag that the format does not have. -/
  | elementTag (tag : UInt8)
  /-- An attribute of more bytes than a signed length could tell. -/
  | attributeLength (length : UInt32)
  /-- Element values are nested too deeply. -/
  | valueNesting
  /-- Whoever follows the instructions turned down what it was handed. -/
  | refused (why : String)
  /-- An attribute of the class came before its header. -/
  | noHeader
  /-- The record of the class was gone at the end. -/
  | noRecord
  /-- The decoding stopped although nobody had stopped it. -/
  | stopped
  deriving DecidableEq, Repr

/-- The kinds of faults that callers tell apart. -/
inductive Fault.Kind where
  | header
  | format
  | limit
  | elementTag
  | endOfInput
  deriving DecidableEq, Repr

namespace Fault

/-- The kind of a fault: most are faults of the format. -/
def kind : Fault → Kind
  | badMagic _ => .header
  | endOfInput _ _ => .endOfInput
  | elementTag _ => .elementTag
  | attributeLength _ => .limit
  | valueNesting => .limit
  | descriptor _ .tooDeep => .limit
  | _ => .format

end Fault

/-- Why bytes are no text, in words. -/
def TextFault.message : TextFault → String
  | truncatedPair => "truncated 2-byte utf8 sequence"
  | malformedPair => "invalid 2-byte utf8 sequence"
  | truncatedTriple => "truncated 3-byte utf8 sequence"
  | malformedTriple => "invalid 3-byte utf8 sequence"
  | badLead byte =>
    "invalid utf8 leading byte 0x" ++ String.ofList (Text.hexPadded 2 byte.toNat)

/-- Why a text is no descriptor, in words. -/
def DescriptorFault.message (text : String) : DescriptorFault → String
  | empty => "empty descriptor"
  | ended => s!"unexpected end of descriptor {Text.quoted text}"
  | missing delimiter => s!"missing '{delimiter}' in descriptor {Text.quoted text}"
  | unexpected byte => s!"unexpected '{byte}' in descriptor {Text.quoted text}"
  | noIdentifier => s!"expected identifier in {Text.quoted text}"
  | noClassName => s!"empty class name in descriptor {Text.quoted text}"
  | tooDeep => s!"generic type arguments nested deeper than {nestingLimit} levels"

/-- Why a text is no method descriptor, in words. -/
def MethodFault.message (text : String) : MethodFault → String
  | notOpened => s!"method descriptor {Text.quoted text} does not start with '('"
  | unterminated => s!"unterminated class name in {Text.quoted text}"
  | malformed => s!"malformed method descriptor {Text.quoted text}"
  | notMethod => s!"{Text.quoted text} is not a method descriptor"

/-- A wrong entry, in words. The wide and floating-point constants of element values
are reported without their place. -/
def Expected.message (expected : Expected) (index : UInt16) (found : Entry) : String :=
  let placed (what : String) :=
    s!"expected {what} at pool index {index.toNat}, found {found.describe}"
  match expected with
  | utf8 => placed "Utf8"
  | classInfo => placed "Class"
  | nameAndType => placed "NameAndType"
  | methodRef => placed "method reference"
  | integer => placed "Integer"
  | long => s!"expected Long, found {found.describe}"
  | float => s!"expected Float, found {found.describe}"
  | double => s!"expected Double, found {found.describe}"

namespace Fault

/-- What a fault says beside its kind. -/
def detail : Fault → String
  | badMagic found => String.ofList (Text.hexPadded 8 found.toNat)
  | endOfInput offset wanted => s!"at offset {offset} (wanted {wanted} bytes)"
  | text why => why.message
  | emptyPool => "constant pool count must be at least 1"
  | reservedTag slot => s!"invalid constant pool tag 2 at slot {slot}"
  | unknownTag tag slot => s!"unknown constant pool tag {tag.toNat} at slot {slot}"
  | indexOutOfRange index => s!"constant pool index {index.toNat} out of range"
  | wrongEntry expected index found => expected.message index found
  | notConstant index found =>
    s!"constant value at pool index {index.toNat} is {found.describe}"
  | descriptor source why => why.message source
  | method source why => why.message source
  | notType source => s!"invalid type character in descriptor {Text.quoted source}"
  | switchBounds low high => s!"tableswitch with low {low.toInt} above high {high.toInt}"
  | switchPairs pairs => s!"lookupswitch with negative pair count {pairs.toInt}"
  | typeTarget target =>
    "unknown type annotation target 0x" ++ String.ofList (Text.hexPadded 2 target.toNat)
  | elementTag tag => String.ofList [Char.ofNat tag.toNat]
  | attributeLength length => s!"attribute of {length.toNat} bytes exceeds 2GB"
  | valueNesting => s!"annotation element values nested deeper than {nestingLimit} levels"
  | refused why => why
  | noHeader => "class attributes before class header"
  | noRecord => "class facts missing at end of parse"
  | stopped => "parse stopped without a collector veto"

/-- A fault in words. -/
def message (fault : Fault) : String :=
  match fault.kind with
  | .header => s!"not a valid class file (magic 0x{fault.detail}, expected 0xcafebabe)"
  | .format => s!"invalid class file format: {fault.detail}"
  | .limit => s!"limit exceeded: {fault.detail}"
  | .elementTag => s!"unsupported annotation element value tag '{fault.detail}'"
  | .endOfInput => s!"unexpected end of input {fault.detail}"

end Fault

end ClassFile
