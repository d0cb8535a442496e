import ClassFile.Bytes

/-!
# Deflated data

Deflated data is a sequence of bits, taken from each byte from its least bit on. It comes
in blocks. A block is either stored as it is, or written in two codes: one for bytes and
for the lengths of repetitions, and one for how far back a repetition reaches. The two
codes are fixed, or given at the start of the block.

A code is determined by the lengths of its words (`Code.ofLengths`): shorter words come
first, words of one length are in the order of their symbols, and each word is the
number after the one before it. A word is read bit by bit, and `Code.decode` keeps the
number read so far together with the first word of the length reached.

Data that does not follow this is corrupt, and data that follows it as far as it goes is
incomplete; what comes first decides. A repetition may reach back to before the first
byte, where everything is zero.
-/

namespace ClassFile.Inflate

/-- Why data cannot be unpacked. -/
inductive Fault where
  /-- It ends before its last block does. -/
  | incomplete
  /-- It breaks a rule. -/
  | corrupt
  deriving DecidableEq, Repr

/-- Bits to be read: those left of the byte that was begun, and the bytes after it. -/
structure BitInput where
  held : Nat
  count : Nat
  rest : Bytes
  deriving DecidableEq, Repr

/-- A reading of bits that may fail. -/
abbrev BitReader (α : Type) := StateT BitInput (Except Fault) α

/-- The next bit. -/
def bit : BitReader Nat := fun input =>
  if input.count = 0 then
    match input.rest with
    | [] => .error .incomplete
    | byte :: rest => .ok (byte.toNat % 2, ⟨byte.toNat / 2, 7, rest⟩)
  else .ok (input.held % 2, ⟨input.held / 2, input.count - 1, input.rest⟩)

/-- A number of the given width, the least bit first. -/
def bits : (width : Nat) → BitReader Nat
  | 0 => pure 0
  | width + 1 => do
    let low ← bit
    return low + 2 * (← bits width)

/-- Whole bytes, after what is left of the byte that was begun. -/
def wholeBytes (n : Nat) : BitReader Bytes := fun input =>
  if input.rest.hasAtLeast n then .ok (input.rest.take n, ⟨0, 0, input.rest.drop n⟩)
  else .error .incomplete

/-! ### Codes -/

/-- A code: how many words there are of each length from one to the greatest, and the
symbols in the order of their words. -/
structure Code where
  counts : List Nat
  symbols : Array Nat
  deriving DecidableEq, Repr

namespace Code

/-- The symbols whose words have a length. -/
def symbolsOf (lengths : List Nat) (length : Nat) : List Nat :=
  (lengths.zipIdx.filter fun (other, _) => other = length).map Prod.snd

/-- The code with the given lengths of words; zero stands for a symbol without a word. -/
def ofLengths (lengths : List Nat) : Code :=
  let longest := lengths.foldl max 1
  let ordered := (List.range longest).map fun length => symbolsOf lengths (length + 1)
  ⟨ordered.map List.length, ordered.flatten.toArray⟩

/-- How many words of the greatest length could still be added; negative if there are more
words than fit. -/
def room (code : Code) : Int :=
  code.counts.foldl
    (fun (room : Int) (count : Nat) => if room < 0 then room else 2 * room - count) 1

/-- Whether there are as many words as fit. -/
def isComplete (code : Code) : Bool := code.room = 0

/-- Whether the data of a block may be written in a code. A block that needs none, or one
word only, has a code with no word or with one word of one bit. -/
def isUsable (code : Code) : Bool :=
  code.isComplete || code.counts = [0] || code.counts = [1]

/-- Reads on in a word. Of the length reached, `first` is the first word and `index` the
place of its symbol. Where no longer words are left, there is no such word. -/
def decodeFrom (symbols : Array Nat) :
    (counts : List Nat) → (word first index : Nat) → BitReader Nat
  | [], _, _, _ => throw .corrupt
  | count :: counts, word, first, index => do
    let word := word + (← bit)
    if word < first + count then
      match symbols[index + (word - first)]? with
      | some symbol => return symbol
      | none => throw .corrupt
    else decodeFrom symbols counts (2 * word) (2 * (first + count)) (index + count)

/-- Reads a word and gives its symbol. -/
def decode (code : Code) : BitReader Nat :=
  decodeFrom code.symbols code.counts 0 0 0

end Code

/-! ### Repetitions -/

/-- The length of a repetition, from its symbol and the bits after it. -/
def repetition (symbol : Nat) : BitReader Nat :=
  if symbol < 265 then return symbol - 254
  else if symbol < 285 then do
    let width := (symbol - 265) / 4 + 1
    return Nat.pow 2 (width + 2) + 3 + (symbol - 265) % 4 * Nat.pow 2 width + (← bits width)
  else if symbol = 285 then return 258
  else throw .corrupt

/-- How far back a repetition reaches, from its symbol and the bits after it. -/
def distance (symbol : Nat) : BitReader Nat :=
  if symbol < 4 then return symbol + 1
  else if symbol < 30 then do
    let width := symbol / 2 - 1
    return (2 + symbol % 2) * Nat.pow 2 width + 1 + (← bits width)
  else throw .corrupt

/-- The byte that stands some way back. In front of the first byte there are zeros. -/
def byteBack (back : Nat) (out : Array UInt8) : UInt8 :=
  if back ≤ out.size then out.getD (out.size - back) 0 else 0

/-- Repeats what stands some way back, byte by byte, so that it may overlap itself. -/
def repeated (back : Nat) : (length : Nat) → Array UInt8 → Array UInt8
  | 0, out => out
  | length + 1, out => repeated back length (out.push (byteBack back out))

/-! ### Blocks -/

/-- The contents of a block in two codes, of at most `fuel` symbols. -/
def coded (literals distances : Code) : (fuel : Nat) → Array UInt8 → BitReader (Array UInt8)
  | 0, _ => throw .incomplete
  | fuel + 1, out => do
    let symbol ← literals.decode
    if symbol < 256 then coded literals distances fuel (out.push (UInt8.ofNat symbol))
    else if symbol = 256 then return out
    else
      let length ← repetition symbol
      let back ← distance (← distances.decode)
      coded literals distances fuel (repeated back length out)

/-- The fixed code for bytes and lengths. -/
def fixedLiterals : Code :=
  .ofLengths
    (List.replicate 144 8 ++ List.replicate 112 9 ++ List.replicate 24 7 ++ List.replicate 8 8)

/-- The fixed code for distances. -/
def fixedDistances : Code := .ofLengths (List.replicate 32 5)

/-- Reads the lengths of words, themselves written in a code, until there are enough. The
last of them may not be repeated beyond that. -/
def lengths (code : Code) (total : Nat) : (fuel : Nat) → Array Nat → BitReader (Array Nat)
  | 0, found => if found.size = total then return found else throw .corrupt
  | fuel + 1, found => do
    if total ≤ found.size then
      if found.size = total then return found else throw .corrupt
    let symbol ← code.decode
    if symbol < 16 then lengths code total fuel (found.push symbol)
    else if symbol = 16 then
      match found.back? with
      | some last =>
        lengths code total fuel (found ++ Array.replicate (3 + (← bits 2)) last)
      | none => throw .corrupt
    else if symbol = 17 then
      lengths code total fuel (found ++ Array.replicate (3 + (← bits 3)) 0)
    else lengths code total fuel (found ++ Array.replicate (11 + (← bits 7)) 0)

/-- The order in which the lengths of the words for lengths are given. -/
def lengthOrder : List Nat :=
  [16, 17, 18, 0, 8, 7, 9, 6, 10, 5, 11, 4, 12, 3, 13, 2, 14, 1, 15]

/-- How many symbols there are at most for bytes and lengths, and for distances. -/
def maxLiterals : Nat := 286

@[inherit_doc maxLiterals]
def maxDistances : Nat := 30

/-- The two codes that are given at the start of a block. -/
def givenCodes : BitReader (Code × Code) := do
  let literals := 257 + (← bits 5)
  let distances := 1 + (← bits 5)
  let given := 4 + (← bits 4)
  if maxLiterals < literals || maxDistances < distances then throw .corrupt
  let widths ← (lengthOrder.take given).mapM fun symbol => return (symbol, ← bits 3)
  let widthOf (symbol : Nat) := (widths.lookup symbol).getD 0
  let code := Code.ofLengths ((List.range lengthOrder.length).map widthOf)
  unless code.isComplete do throw .corrupt
  let found ← lengths code (literals + distances) (literals + distances) #[]
  let found := found.toList
  let first := Code.ofLengths (found.take literals)
  let second := Code.ofLengths (found.drop literals)
  unless first.isUsable && second.isUsable do throw .corrupt
  return (first, second)

/-- One block. -/
def block (fuel : Nat) (out : Array UInt8) : BitReader (Array UInt8) := do
  match ← bits 2 with
  | 0 =>
    let header ← wholeBytes 4
    let length := Bytes.littleEndian (header.take 2)
    if length + Bytes.littleEndian (header.drop 2) ≠ 0xFFFF then throw .corrupt
    return out ++ (← wholeBytes length).toArray
  | 1 => coded fixedLiterals fixedDistances fuel out
  | 2 =>
    let (literals, distances) ← givenCodes
    coded literals distances fuel out
  | _ => throw .corrupt

/-- Blocks up to the one that is marked as the last. -/
def blocks (fuel : Nat) : (more : Nat) → Array UInt8 → BitReader (Array UInt8)
  | 0, _ => throw .incomplete
  | more + 1, out => do
    let last ← bit
    let out ← block fuel out
    if last = 1 then return out else blocks fuel more out

/-- What the data stands for. Every symbol and every block takes a bit at least, so there
are no more of either than bits. What follows the last block is not looked at. -/
def inflate (bytes : Bytes) : Except Fault Bytes :=
  let bits := 8 * bytes.length
  ((blocks bits bits #[]).run ⟨0, 0, bytes⟩).map fun (out, _) => out.toList

end ClassFile.Inflate
