import ClassFile.Bytes
import ClassFile.Text.Quoted

/-!
# Digests

The SHA-256 digest of a byte string. The bytes are padded to whole blocks of sixteen
words, and every block is mixed into a state of eight words in sixty-four rounds. Each
round takes a word of the block's *schedule*: its own sixteen words, followed by
forty-eight that are made from the ones before.

The schedule is built from its end, so that the words a new one is made from stand at
fixed places in front.
-/

namespace ClassFile

/-- A digest of eight words. -/
structure Digest where
  a : UInt32
  b : UInt32
  c : UInt32
  d : UInt32
  e : UInt32
  f : UInt32
  g : UInt32
  h : UInt32
  deriving DecidableEq, Repr

namespace Digest

/-- The digest before any block is mixed in. -/
def start : Digest :=
  ⟨0x6A09E667, 0xBB67AE85, 0x3C6EF372, 0xA54FF53A, 0x510E527F, 0x9B05688C, 0x1F83D9AB,
    0x5BE0CD19⟩

/-- The constant of each round. -/
def roundConstants : List UInt32 :=
  [0x428A2F98, 0x71374491, 0xB5C0FBCF, 0xE9B5DBA5, 0x3956C25B, 0x59F111F1, 0x923F82A4,
    0xAB1C5ED5, 0xD807AA98, 0x12835B01, 0x243185BE, 0x550C7DC3, 0x72BE5D74, 0x80DEB1FE,
    0x9BDC06A7, 0xC19BF174, 0xE49B69C1, 0xEFBE4786, 0x0FC19DC6, 0x240CA1CC, 0x2DE92C6F,
    0x4A7484AA, 0x5CB0A9DC, 0x76F988DA, 0x983E5152, 0xA831C66D, 0xB00327C8, 0xBF597FC7,
    0xC6E00BF3, 0xD5A79147, 0x06CA6351, 0x14292967, 0x27B70A85, 0x2E1B2138, 0x4D2C6DFC,
    0x53380D13, 0x650A7354, 0x766A0ABB, 0x81C2C92E, 0x92722C85, 0xA2BFE8A1, 0xA81A664B,
    0xC24B8B70, 0xC76C51A3, 0xD192E819, 0xD6990624, 0xF40E3585, 0x106AA070, 0x19A4C116,
    0x1E376C08, 0x2748774C, 0x34B0BCB5, 0x391C0CB3, 0x4ED8AA4A, 0x5B9CCA4F, 0x682E6FF3,
    0x748F82EE, 0x78A5636F, 0x84C87814, 0x8CC70208, 0x90BEFFFA, 0xA4506CEB, 0xBEF9A3F7,
    0xC67178F2]

/-- The word with its bits turned round to the right. -/
def rotated (word : UInt32) (places : UInt32) : UInt32 :=
  (word >>> places) ||| (word <<< (32 - places))

/-- The bytes of a number, the most significant first. -/
def bigEndian : (width : Nat) → Nat → Bytes
  | 0, _ => []
  | width + 1, n => bigEndian width (n / 256) ++ [UInt8.ofNat (n % 256)]

/-- Fills a byte string up to whole blocks: a single bit, zeros, and the length in bits. -/
def padded (bytes : Bytes) : Bytes :=
  let length := bytes.length
  bytes ++ 0x80 :: List.replicate ((119 - length % 64) % 64) 0 ++ bigEndian 8 (8 * length)

/-- The words of a byte string, four bytes each. -/
def words : Bytes → List UInt32
  | a :: b :: c :: d :: rest => UInt32.ofNat (Bytes.number [a, b, c, d]) :: words rest
  | _ => []

/-- Splits words into blocks of sixteen. -/
def blocks : (words : List UInt32) → List (List UInt32)
  | a :: b :: c :: d :: e :: f :: g :: h :: i :: j :: k :: l :: m :: n :: o :: p :: rest =>
    [a, b, c, d, e, f, g, h, i, j, k, l, m, n, o, p] :: blocks rest
  | _ => []

/-- Makes a new word of a schedule from the words before it, the last one first. -/
def nextWord (before : List UInt32) : UInt32 :=
  let back (places : Nat) := before.getD (places - 1) 0
  let early := back 15
  let late := back 2
  (rotated late 17 ^^^ rotated late 19 ^^^ (late >>> 10)) + back 7 +
    (rotated early 7 ^^^ rotated early 18 ^^^ (early >>> 3)) + back 16

/-- Puts new words in front of a schedule that is given from its end. -/
def extend : (n : Nat) → List UInt32 → List UInt32
  | 0, reversed => reversed
  | n + 1, reversed => extend n (nextWord reversed :: reversed)

/-- The schedule of a block. -/
def schedule (block : List UInt32) : List UInt32 :=
  (extend 48 block.reverse).reverse

/-- One round. -/
def round (s : Digest) (constant word : UInt32) : Digest :=
  let choice := (s.e &&& s.f) ^^^ ((~~~s.e) &&& s.g)
  let majority := (s.a &&& s.b) ^^^ (s.a &&& s.c) ^^^ (s.b &&& s.c)
  let first := s.h + (rotated s.e 6 ^^^ rotated s.e 11 ^^^ rotated s.e 25) + choice +
    constant + word
  let second := (rotated s.a 2 ^^^ rotated s.a 13 ^^^ rotated s.a 22) + majority
  ⟨first + second, s.a, s.b, s.c, s.d + first, s.e, s.f, s.g⟩

/-- The words of two digests added. -/
def add (s t : Digest) : Digest :=
  ⟨s.a + t.a, s.b + t.b, s.c + t.c, s.d + t.d, s.e + t.e, s.f + t.f, s.g + t.g, s.h + t.h⟩

/-- Mixes a block in. -/
def mix (s : Digest) (block : List UInt32) : Digest :=
  let rounds := roundConstants.zip (schedule block)
  s.add (rounds.foldl (fun s (constant, word) => s.round constant word) s)

/-- The digest of a byte string. -/
def ofBytes (bytes : Bytes) : Digest :=
  (blocks (words (padded bytes))).foldl mix start

/-- The words of a digest in order. -/
def toList (s : Digest) : List UInt32 := [s.a, s.b, s.c, s.d, s.e, s.f, s.g, s.h]

/-- The hexadecimal digits of a digest, eight a word. -/
def hex (s : Digest) : String :=
  String.ofList (s.toList.flatMap fun word => Text.hexPadded 8 word.toNat)

/-- A digest always has the same number of digits. -/
theorem length_hex (s : Digest) : s.hex.length = 64 := by
  simp [hex, toList]

end Digest

end ClassFile
