import ClassFile.Decimal.Shortest

/-!
# Written numbers

How a floating-point number is spelled once its digits are known: with a point in its
place, always with a digit on either side of it, or as a digit, a fraction and a power
of ten. What differs between two kinds of output is a `Style` value.
-/

namespace ClassFile.Decimal

/-- The choices of one kind of output. -/
structure Style where
  /-- The least power of ten, of the leading digit, that is still written with a point. -/
  least : Int
  /-- The greatest such power. -/
  greatest : Int
  /-- Whether a power of ten that is not negative gets a plus sign. -/
  plus : Bool
  tie : Tie
  nan : String
  /-- The text of infinity, for a negative one with `true`. -/
  infinity : Bool → String

/-- The digits with a point in its place. -/
def positional (d : Decimal) : String :=
  let digits := Nat.toDigits 10 d.digits
  if 0 ≤ d.exponent then
    String.ofList (digits ++ List.replicate d.exponent.toNat '0' ++ ['.', '0'])
  else
    let fraction := (-d.exponent).toNat
    let digits := List.replicate (fraction + 1 - digits.length) '0' ++ digits
    let whole := digits.length - fraction
    String.ofList (digits.take whole ++ '.' :: digits.drop whole)

/-- The power of ten of the leading digit. -/
def leading (d : Decimal) : Int :=
  d.exponent + (Nat.toDigits 10 d.digits).length - 1

/-- One digit, the rest as a fraction if there is any, and the power of ten. -/
def scientific (d : Decimal) (plus : Bool) : String :=
  let mantissa := match Nat.toDigits 10 d.digits with
    | [] => []
    | [digit] => [digit]
    | digit :: fraction => digit :: '.' :: fraction
  let sign := if d.leading < 0 then "-" else if plus then "+" else ""
  String.ofList mantissa ++ "e" ++ sign ++ toString d.leading.natAbs

/-- A floating-point number, given by its bits, in a style. -/
def Style.render (style : Style) (format : Format) (bits : Nat) : String :=
  let sign (negative : Bool) := if negative then "-" else ""
  match format.read bits with
  | .nan => style.nan
  | .infinite negative => style.infinity negative
  | .zero negative => sign negative ++ "0.0"
  | .finite negative size =>
    let decimal := size.shortest style.tie
    sign negative ++
      if style.least ≤ decimal.leading ∧ decimal.leading ≤ style.greatest then
        decimal.positional
      else decimal.scientific style.plus

end ClassFile.Decimal
