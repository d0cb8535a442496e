/-!
# Numbers on the command line

A number of threads is written in decimal digits, with a plus sign in front if one likes.
It fits in sixty-four bits. The digits are read from the front, and the first one that
is none, or with which the number no longer fits, tells what is wrong.
-/

namespace ClassFile

/-- Why a text is no number. -/
inductive NumberFault where
  | empty
  | notDigit
  | tooLarge
  deriving DecidableEq, Repr

/-- Why a text is no number, in words. -/
def NumberFault.message : NumberFault → String
  | empty => "cannot parse integer from empty string"
  | notDigit => "invalid digit found in string"
  | tooLarge => "number too large to fit in target type"

namespace Number

/-- The greatest number. -/
def greatest : Nat := UInt64.size - 1

/-- Reads digits after those of a number. -/
def digits (number : Nat) : List Char → Except NumberFault Nat
  | [] => .ok number
  | c :: rest =>
    if c.isDigit then
      let number := 10 * number + (c.toNat - '0'.toNat)
      if number ≤ greatest then digits number rest else .error .tooLarge
    else .error .notDigit

/-- The number that a text writes. -/
def parse (text : String) : Except NumberFault Nat :=
  match text.toList with
  | [] => .error .empty
  | ['+'] => .error .notDigit
  | '+' :: rest => digits 0 rest
  | chars => digits 0 chars

end Number

end ClassFile
