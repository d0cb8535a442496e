import ClassFile.Bytes

/-!
# Texts in a class file

Texts are stored as 16-bit units, each written in one, two or three bytes:

| first byte | bytes that follow | bits of the unit |
|---|---|---|
| `0xxxxxxx` | none | 7 |
| `110xxxxx` | `10xxxxxx` | 5 + 6 |
| `1110xxxx` | `10xxxxxx`, `10xxxxxx` | 4 + 6 + 6 |

Overlong groups are allowed, and the unit zero is always written in two bytes. A
character outside the basic plane is a pair of surrogate units; a surrogate without
its partner becomes the replacement character, for class files may hold such.
-/

namespace ClassFile

/-- Why bytes are no text. -/
inductive TextFault where
  /-- A two-byte group ends early. -/
  | truncatedPair
  /-- The second byte of a two-byte group is no continuation. -/
  | malformedPair
  /-- A three-byte group ends early. -/
  | truncatedTriple
  /-- The second or third byte of a three-byte group is no continuation. -/
  | malformedTriple
  /-- No group begins with this byte. -/
  | badLead (byte : UInt8)
  deriving DecidableEq, Repr

namespace ModifiedUtf8

/-- Whether a byte continues a group: `10xxxxxx`. -/
def isContinuation (byte : UInt8) : Bool :=
  byte &&& 0xC0 == 0x80

/-- The unit of a two-byte group. -/
def pairUnit (a b : UInt8) : UInt16 :=
  (a &&& 0x1F).toUInt16 <<< 6 ||| (b &&& 0x3F).toUInt16

/-- The unit of a three-byte group. -/
def tripleUnit (a b c : UInt8) : UInt16 :=
  (a &&& 0x0F).toUInt16 <<< 12 ||| (b &&& 0x3F).toUInt16 <<< 6 ||| (c &&& 0x3F).toUInt16

/-- The 16-bit units that the bytes spell. -/
def units : Bytes → Except TextFault (List UInt16)
  | [] => .ok []
  | a :: rest =>
    if a &&& 0x80 = 0 then return a.toUInt16 :: (← units rest)
    else if a &&& 0xE0 = 0xC0 then
      match rest with
      | [] => .error .truncatedPair
      | b :: rest =>
        if isContinuation b then return pairUnit a b :: (← units rest)
        else .error .malformedPair
    else if a &&& 0xF0 = 0xE0 then
      match rest with
      | b :: c :: rest =>
        if isContinuation b && isContinuation c then return tripleUnit a b c :: (← units rest)
        else .error .malformedTriple
      | _ => .error .truncatedTriple
    else .error (.badLead a)

/-- A unit that opens a pair. -/
def isHighSurrogate (unit : UInt16) : Bool :=
  unit &&& 0xFC00 == 0xD800

/-- A unit that closes a pair. -/
def isLowSurrogate (unit : UInt16) : Bool :=
  unit &&& 0xFC00 == 0xDC00

/-- The character outside the basic plane that a pair of surrogates stands for. -/
def joined (high low : UInt16) : Char :=
  Char.ofNat (0x10000 + (high.toNat % 0x400) * 0x400 + low.toNat % 0x400)

/-- The character that stands for a surrogate without its partner. -/
def replacement : Char := Char.ofNat 0xFFFD

/-- The characters that units spell, pairs joined and lone surrogates replaced. -/
def characters : List UInt16 → List Char
  | [] => []
  | unit :: rest =>
    if isHighSurrogate unit then
      match rest with
      | [] => [replacement]
      | next :: after =>
        if isLowSurrogate next then joined unit next :: characters after
        else replacement :: characters (next :: after)
    else if isLowSurrogate unit then replacement :: characters rest
    else Char.ofNat unit.toNat :: characters rest

/-- Whether a byte is a character by itself: `0xxxxxxx`. -/
def isAscii (byte : UInt8) : Bool :=
  byte < 0x80

/-- The text that bytes spell. Where each byte is a character by itself, the units are not
formed. -/
def decode (bytes : Bytes) : Except TextFault String :=
  if bytes.all isAscii then .ok (String.ofList (bytes.map fun byte => Char.ofNat byte.toNat))
  else (units bytes).map fun units => String.ofList (characters units)

end ModifiedUtf8

end ClassFile
