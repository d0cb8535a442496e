import ClassFile.Text.ModifiedUtf8

/-!
# The writing of texts

A text as a class file holds it. Its characters are written as 16-bit units, those outside the basic
plane as a pair of surrogates, and each unit in as few bytes as it needs. Only the unit zero takes
two bytes where one would do, so that no byte of a text is zero.

A text may be written otherwise: a unit may take more bytes than it needs, and a surrogate may stand
alone. What bytes spell which units is `ClassFile.ModifiedUtf8.Spells`, and what units stand for
which characters is `ClassFile.ModifiedUtf8.StandFor`. In both, numbers are put together by sums and
products.
-/

namespace ClassFile.ModifiedUtf8

/-- The units of a character. -/
def unitsOf (c : Char) : List UInt16 :=
  if c.toNat < 0x10000 then [.ofNat c.toNat]
  else [.ofNat (0xD800 + (c.toNat - 0x10000) / 0x400),
    .ofNat (0xDC00 + (c.toNat - 0x10000) % 0x400)]

/-- The bytes of a unit. -/
def group (unit : UInt16) : Bytes :=
  let n := unit.toNat
  if 0 < n ∧ n < 0x80 then [.ofNat n]
  else if n < 0x800 then [.ofNat (0xC0 + n / 0x40), .ofNat (0x80 + n % 0x40)]
  else [.ofNat (0xE0 + n / 0x1000), .ofNat (0x80 + n / 0x40 % 0x40), .ofNat (0x80 + n % 0x40)]

/-- The bytes of a text. -/
def encode (text : String) : Bytes :=
  (text.toList.flatMap unitsOf).flatMap group

/-- A group of bytes, and the unit that it spells. -/
inductive Group : Bytes → UInt16 → Prop where
  /-- One byte, `0xxxxxxx`. -/
  | single {x : Nat} (hx : x < 0x80) : Group [.ofNat x] (.ofNat x)
  /-- Two bytes, `110xxxxx 10yyyyyy`. -/
  | pair {x y : Nat} (hx : x < 0x20) (hy : y < 0x40) :
    Group [.ofNat (0xC0 + x), .ofNat (0x80 + y)] (.ofNat (0x40 * x + y))
  /-- Three bytes, `1110xxxx 10yyyyyy 10zzzzzz`. -/
  | triple {x y z : Nat} (hx : x < 0x10) (hy : y < 0x40) (hz : z < 0x40) :
    Group [.ofNat (0xE0 + x), .ofNat (0x80 + y), .ofNat (0x80 + z)]
      (.ofNat (0x1000 * x + 0x40 * y + z))

/-- Bytes that fall into groups, and the units of these. -/
inductive Spells : Bytes → List UInt16 → Prop where
  /-- No bytes spell no unit. -/
  | nil : Spells [] []
  /-- A group in front of others. -/
  | cons {bytes rest : Bytes} {unit : UInt16} {more : List UInt16} (first : Group bytes unit)
      (others : Spells rest more) : Spells (bytes ++ rest) (unit :: more)

/-- A unit that opens a pair. -/
def IsHigh (unit : UInt16) : Prop :=
  0xD800 ≤ unit.toNat ∧ unit.toNat < 0xDC00

/-- A unit that closes a pair. -/
def IsLow (unit : UInt16) : Prop :=
  0xDC00 ≤ unit.toNat ∧ unit.toNat < 0xE000

/-- Units, and the characters that they stand for. -/
inductive StandFor : List UInt16 → List Char → Prop where
  /-- No units stand for no character. -/
  | nil : StandFor [] []
  /-- A unit that is the number of a character, and so no surrogate. -/
  | plain {unit : UInt16} {c : Char} {units : List UInt16} {chars : List Char}
      (hc : c.toNat = unit.toNat) (others : StandFor units chars) :
    StandFor (unit :: units) (c :: chars)
  /-- Two surrogates that are the number of a character outside the basic plane. -/
  | pair {high low : UInt16} {c : Char} {units : List UInt16} {chars : List Char}
      (hhigh : IsHigh high) (hlow : IsLow low)
      (hc : c.toNat = 0x10000 + (high.toNat - 0xD800) * 0x400 + (low.toNat - 0xDC00))
      (others : StandFor units chars) : StandFor (high :: low :: units) (c :: chars)
  /-- A unit that opens a pair which the next one does not close. -/
  | loneHigh {high : UInt16} {units : List UInt16} {chars : List Char} (hhigh : IsHigh high)
      (hnext : ∀ next ∈ units.head?, ¬IsLow next) (others : StandFor units chars) :
    StandFor (high :: units) (replacement :: chars)
  /-- A unit that closes a pair which is not open. -/
  | loneLow {low : UInt16} {units : List UInt16} {chars : List Char} (hlow : IsLow low)
      (others : StandFor units chars) : StandFor (low :: units) (replacement :: chars)

end ClassFile.ModifiedUtf8
