import ClassFile.Text.Printable

/-!
# Blank characters

White space in the sense of the character standard, and the text that is left when
it is taken off both ends.
-/

namespace ClassFile.Text

/-- The blank characters: the ASCII controls from tab to carriage return, the space,
and the spaces and line separators outside ASCII. -/
def blanks : Ranges :=
  [(0x9, 0xD), (0x20, 0x20), (0x85, 0x85), (0xA0, 0xA0), (0x1680, 0x1680), (0x2000, 0x200A),
    (0x2028, 0x2029), (0x202F, 0x202F), (0x205F, 0x205F), (0x3000, 0x3000)]

/-- Whether a character is white space. -/
def isBlank (c : Char) : Bool :=
  blanks.covers c.toNat

/-- Whatever core counts as white space is blank. -/
theorem isBlank_of_isWhitespace {c : Char} (h : c.isWhitespace) : isBlank c := by
  simp only [Char.isWhitespace, Bool.or_eq_true, decide_eq_true_eq] at h
  rcases h with ((rfl | rfl) | rfl) | rfl <;> decide

/-- The text without the white space at its two ends. -/
def trimmed (text : String) : String :=
  String.ofList ((text.toList.dropWhile isBlank).reverse.dropWhile isBlank).reverse

end ClassFile.Text
