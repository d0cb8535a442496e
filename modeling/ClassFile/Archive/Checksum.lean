import ClassFile.Bytes

/-!
# Checksums

The checksum of an archived file: the remainder of its bits, as a polynomial over two
elements, by a polynomial of degree thirty-two. The remainder is kept with its lowest
coefficient in the highest bit, and inverted before the first byte and after the last.
-/

namespace ClassFile.Checksum

/-- The divisor without its leading coefficient. -/
def divisor : UInt32 := 0xEDB88320

/-- Takes in `n` bits that were added to the remainder. -/
def shifted : (n : Nat) → UInt32 → UInt32
  | 0, remainder => remainder
  | n + 1, remainder =>
    shifted n (if remainder &&& 1 = 1 then (remainder >>> 1) ^^^ divisor else remainder >>> 1)

/-- Takes in a byte. -/
def take (remainder : UInt32) (byte : UInt8) : UInt32 :=
  shifted 8 (remainder ^^^ byte.toUInt32)

/-- The checksum of a byte string. -/
def ofBytes (bytes : Bytes) : UInt32 :=
  ~~~(bytes.foldl take 0xFFFFFFFF)

end ClassFile.Checksum
