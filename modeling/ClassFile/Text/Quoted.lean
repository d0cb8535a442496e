import ClassFile.Text.Printable

/-!
# Quoted text

A text inside a message stands between double quotes. A quote and a backslash in it
are escaped by a backslash, four controls have short names, and every other
character that cannot be shown (`ClassFile.Text.isPrintable`) is written by the
hexadecimal digits of its code point in braces. An apostrophe is left alone.
-/

namespace ClassFile.Text

/-- One lower-case hexadecimal digit; numbers above fifteen have none and give the
last one. -/
def hexDigit (n : Nat) : Char :=
  if n < 10 then Char.ofNat (0x30 + n) else Char.ofNat (0x61 + min (n - 10) 5)

/-- The last `digits` hexadecimal digits of a number, zeros in front included. -/
def hexPadded : (digits : Nat) → Nat → List Char
  | 0, _ => []
  | digits + 1, n => hexPadded digits (n / 16) ++ [hexDigit (n % 16)]

/-- The hexadecimal digits of a number without zeros in front. -/
def hexDigits (n : Nat) : List Char :=
  (Nat.toDigits 16 n)

@[simp]
theorem length_hexPadded (digits n : Nat) : (hexPadded digits n).length = digits := by
  induction digits generalizing n with
  | zero => rfl
  | succ digits ih => simp [hexPadded, ih]

/-- How one character is written between quotes. -/
def escapeChar (c : Char) : List Char :=
  match c with
  | '"' => ['\\', '"']
  | '\\' => ['\\', '\\']
  | '\t' => ['\\', 't']
  | '\n' => ['\\', 'n']
  | '\r' => ['\\', 'r']
  | '\x00' => ['\\', '0']
  | c => if isPrintable c then [c] else "\\u\x7b".toList ++ hexDigits c.toNat ++ ['\x7d']

/-- A text between double quotes, with all that cannot be shown escaped. -/
def quoted (text : String) : String :=
  String.ofList ('"' :: text.toList.flatMap escapeChar ++ ['"'])

end ClassFile.Text
