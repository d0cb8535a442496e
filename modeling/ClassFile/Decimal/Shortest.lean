/-!
# The shortest decimal that reads back

A binary floating-point number stands for every real number that rounds to it, an
interval around its own value. Of the decimals in that interval the ones with the
fewest digits are the short names of the number, and of those the nearest is taken.

The search is exact. A finite number is `m · 2^q`; the interval runs half a step to
each side, a quarter of a step below where the step itself halves, and holds its ends
when `m` is even. For one digit, two digits and so on, the two neighbours of the value
on that decimal grid are tested by comparing natural numbers.
-/

namespace ClassFile

/-- A positive decimal `digits · 10^exponent`. -/
structure Decimal where
  digits : Nat
  exponent : Int

namespace Decimal

/-- The widths of the two fields of a binary floating-point format, the sign bit apart. -/
structure Format where
  fractionBits : Nat
  exponentBits : Nat

/-- Thirty-two bits: eight of exponent, twenty-three of fraction. -/
def Format.single : Format := ⟨23, 8⟩

/-- Sixty-four bits: eleven of exponent, fifty-two of fraction. -/
def Format.double : Format := ⟨52, 11⟩

/-- A positive finite number `m · 2^q`; `narrow` says that the numbers just below it
lie half as far apart as those just above. -/
structure Magnitude where
  m : Nat
  q : Int
  narrow : Bool

/-- What a bit pattern stands for. -/
inductive Reading where
  | nan
  | infinite (negative : Bool)
  | zero (negative : Bool)
  | finite (negative : Bool) (size : Magnitude)

/-- The number that a bit pattern stands for. -/
def Format.read (format : Format) (bits : Nat) : Reading :=
  let fraction := bits % Nat.pow 2 format.fractionBits
  let exponent := bits / Nat.pow 2 format.fractionBits % Nat.pow 2 format.exponentBits
  let negative := bits / Nat.pow 2 (format.fractionBits + format.exponentBits) % 2 = 1
  let bottom : Int := 2 - Nat.pow 2 (format.exponentBits - 1) - format.fractionBits
  if exponent = Nat.pow 2 format.exponentBits - 1 then
    if fraction = 0 then .infinite negative else .nan
  else if exponent = 0 then
    if fraction = 0 then .zero negative else .finite negative ⟨fraction, bottom, false⟩
  else
    .finite negative
      ⟨Nat.pow 2 format.fractionBits + fraction, bottom + exponent - 1,
        fraction = 0 && 1 < exponent⟩

/-- Which of two equally near decimals is taken. -/
inductive Tie where
  | up
  | even
  deriving DecidableEq

/-- How many decimal places to the left of the point the value reaches; zero or less
for values under one tenth. Its leading digit has the weight `10 ^ (places - 1)`. -/
def Magnitude.places (x : Magnitude) : Int :=
  let whole := x.m * Nat.pow 2 x.q.toNat / Nat.pow 2 (-x.q).toNat
  if 0 < whole then (Nat.toDigits 10 whole).length
  else zerosAfterPoint (4 * (-x.q).toNat + 1) 1
where
  /-- Counts the zeros that follow the point, as a number below one. -/
  zerosAfterPoint : Nat → Nat → Int
    | 0, _ => 0
    | fuel + 1, j =>
      if Nat.pow 2 (-x.q).toNat ≤ x.m * Nat.pow 10 j then 1 - j
      else zerosAfterPoint fuel (j + 1)

/-- The neighbour of the value on the grid of multiples of `10 ^ exponent` that reads
back as the number, the nearer one if both do. -/
def Magnitude.onGrid (x : Magnitude) (tie : Tie) (exponent : Int) : Option Nat :=
  -- Everything is compared in quarter steps, multiplied out to whole numbers.
  let grid := Nat.pow 10 exponent.toNat * Nat.pow 2 (2 - x.q).toNat
  let scale (quarters : Nat) :=
    quarters * Nat.pow 2 (x.q - 2).toNat * Nat.pow 10 (-exponent).toNat
  let value := scale (4 * x.m)
  let low := scale (4 * x.m - if x.narrow then 1 else 2)
  let high := scale (4 * x.m + 2)
  let readsBack (d : Nat) :=
    if x.m % 2 = 0 then low ≤ d * grid && d * grid ≤ high
    else low < d * grid && d * grid < high
  let down := value / grid
  let up := down + 1
  match 0 < down && readsBack down, readsBack up with
  | true, true =>
    let below := value - down * grid
    let above := up * grid - value
    if below < above then some down
    else if above < below then some up
    else match tie with
      | .up => some up
      | .even => some (if down % 2 = 0 then down else up)
  | true, false => some down
  | false, true => some up
  | false, false => none

/-- Takes the zeros off the end of a number, at most `fuel` of them. -/
def stripped : (fuel : Nat) → Decimal → Decimal
  | 0, d => d
  | fuel + 1, d =>
    if d.digits ≠ 0 ∧ d.digits % 10 = 0 then stripped fuel ⟨d.digits / 10, d.exponent + 1⟩
    else d

/-- The first grid, from the coarsest on, that holds a decimal which reads back. -/
def Magnitude.shortestFrom (x : Magnitude) (tie : Tie) (places : Int) :
    (grids : Nat) → (length : Nat) → Decimal
  | 0, _ => ⟨0, 0⟩
  | grids + 1, length =>
    let exponent := places - length
    match x.onGrid tie exponent with
    | some digits => stripped (length + 1) ⟨digits, exponent⟩
    | none => shortestFrom x tie places grids (length + 1)

/-- The shortest decimal that reads back as the number. Seventeen digits are enough
for every number of either format. -/
def Magnitude.shortest (x : Magnitude) (tie : Tie) : Decimal :=
  x.shortestFrom tie x.places 17 1

end Decimal

end ClassFile
