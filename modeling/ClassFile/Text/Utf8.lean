import ClassFile.Bytes

/-!
# Text from bytes

The text that bytes stand for in UTF-8. Bytes that stand for nothing are replaced: as many
of them as could have begun a character give one replacement together.
-/

namespace ClassFile.Utf8

/-- A character that was begun: how many bytes it still needs, between which bounds the
next one has to be, and the number read so far. -/
structure Begun where
  needed : Nat
  least : UInt8
  greatest : UInt8
  value : Nat
  deriving DecidableEq, Repr

/-- What stands for bytes that are no character. -/
def replacement : Char := Char.ofNat 0xFFFD

/-- What a first byte begins, if it begins a character of several bytes. The bounds keep
out numbers that are written longer than they need, surrogates, and what is too great. -/
def begun? (byte : UInt8) : Option Begun :=
  let value := byte.toNat
  if 0xC2 ≤ value ∧ value ≤ 0xDF then some ⟨1, 0x80, 0xBF, value % 0x20⟩
  else if value = 0xE0 then some ⟨2, 0xA0, 0xBF, 0⟩
  else if value = 0xED then some ⟨2, 0x80, 0x9F, 0xD⟩
  else if 0xE1 ≤ value ∧ value ≤ 0xEF then some ⟨2, 0x80, 0xBF, value % 0x10⟩
  else if value = 0xF0 then some ⟨3, 0x90, 0xBF, 0⟩
  else if 0xF1 ≤ value ∧ value ≤ 0xF3 then some ⟨3, 0x80, 0xBF, value % 8⟩
  else if value = 0xF4 then some ⟨3, 0x80, 0x8F, 4⟩
  else none

/-- Takes a byte where a character begins. The characters found are given backwards. -/
def start (reversed : List Char) (byte : UInt8) : List Char × Option Begun :=
  if byte < 0x80 then (Char.ofNat byte.toNat :: reversed, none)
  else match begun? byte with
    | some begun => (reversed, some begun)
    | none => (replacement :: reversed, none)

/-- Takes a byte. -/
def step : List Char × Option Begun → UInt8 → List Char × Option Begun
  | (reversed, none), byte => start reversed byte
  | (reversed, some begun), byte =>
    if begun.least ≤ byte ∧ byte ≤ begun.greatest then
      let value := 0x40 * begun.value + byte.toNat % 0x40
      if begun.needed ≤ 1 then (Char.ofNat value :: reversed, none)
      else (reversed, some ⟨begun.needed - 1, 0x80, 0xBF, value⟩)
    else start (replacement :: reversed) byte

/-- The text that bytes stand for. -/
def decode (bytes : Bytes) : String :=
  let (reversed, begun) := bytes.foldl step ([], none)
  String.ofList (if begun.isSome then replacement :: reversed else reversed).reverse

end ClassFile.Utf8
