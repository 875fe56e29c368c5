import FourLane.Register.Basic

/-!
# The text of a register

A register is shown on one line or, indented, with one lane to a line. A lane is shown as its bits and, in
parentheses, as the binary32 number that they denote: the shortest decimal that reads back, positional
from `1e-4` up to `1e16` and scientific elsewhere.

A magnitude of `n` units is exactly `n * 5 ^ 149` times `10 ^ -149`, so decimals are compared with
it in whole numbers. On each decimal grid, from the coarsest with a nonzero point, only the two
points around the magnitude need a look: if any point of the grid rounds to it, one of these does.
The first grid with such a point gives the decimal; of two such points the nearer is taken, from the
middle the greater.

A decimal is written from its significant digits and the place of its point. Positional text always
has a digit on both sides of the point; scientific text has one digit before the point, and no point
if that is the only digit.
-/

namespace FourLane

/-! ## The shortest decimal that reads back -/

/-- The number `significand * 10 ^ exponent`. -/
structure Decimal where
  significand : Nat
  exponent : Int
  deriving DecidableEq, Repr

namespace Decimal

open Binary32 (roundUnits)

/-- How many `10 ^ -149` a unit of `2 ^ -149` is. -/
def decimalUnit : Nat := 5 ^ (149 : Nat)

/-- The exact magnitude of `units`, counted in `10 ^ -149`. -/
def exact (units : Nat) : Nat := units * decimalUnit

/-- The decimal at a point of the grid of multiples of `10 ^ (place - 149)`. -/
def onGrid (place point : Nat) : Decimal := ⟨point, (place : Int) - 149⟩

/-- Whether the binary32 magnitude nearest to `point * 10 ^ (place - 149)` has these units. -/
def readsBack (units place point : Nat) : Bool :=
  roundUnits (point * 10 ^ place) decimalUnit == units

/-- The point of the grid nearest to the magnitude that reads back, if there is one. -/
def nearestOnGrid? (units place : Nat) : Option Nat :=
  let low := exact units / 10 ^ place
  let lowIsNearer := 2 * exact units < (2 * low + 1) * 10 ^ place
  let lowReads := readsBack units place low
  let highReads := readsBack units place (low + 1)
  if lowReads && (lowIsNearer || !highReads) then some low
  else if highReads then some (low + 1)
  else none

/-- The decimal of the first grid on which `choose` finds a point, going down from
`10 ^ (place - 149)`; on the finest grid the point is `last`. -/
def firstOnGrids (choose : Nat → Option Nat) (last : Nat) : (place : Nat) → Decimal
  | 0 => onGrid 0 last
  | place + 1 =>
    match choose (place + 1) with
    | some point => onGrid (place + 1) point
    | none => firstOnGrids choose last place

/-- The decimal with the fewest digits that rounds to a magnitude, and the nearest such. -/
def shortest (units : Nat) : Decimal :=
  firstOnGrids (nearestOnGrid? units) (exact units) ((Text.decimal (exact units)).length - 1)

/-! ## Writing a decimal -/

/-- The digits of a decimal without the zeros at the end. -/
def significantDigits (d : Decimal) : List Char :=
  ((Text.decimal d.significand).reverse.dropWhile (· == '0')).reverse

/-- The place of the point: `d` is `0.digits * 10 ^ point`. -/
def point (d : Decimal) : Int := (Text.decimal d.significand).length + d.exponent

/-- The numeral of an integer, with a minus sign in front of a negative one. -/
def signedDecimal (k : Int) : List Char :=
  if k < 0 then '-' :: Text.decimal k.natAbs else Text.decimal k.natAbs

/-- Digits around a point, padded with zeros where the digits do not reach. -/
def positional (d : Decimal) : List Char :=
  let digits := d.significantDigits
  if d.point ≤ 0 then
    ['0', '.'] ++ List.replicate d.point.natAbs '0' ++ digits
  else
    let whole := d.point.natAbs
    if digits.length ≤ whole then
      digits ++ List.replicate (whole - digits.length) '0' ++ ['.', '0']
    else
      digits.take whole ++ '.' :: digits.drop whole

/-- One digit, the others behind a point, and the power of ten. -/
def scientific (d : Decimal) : List Char :=
  let fraction := d.significantDigits.drop 1
  d.significantDigits.take 1 ++ (if fraction.isEmpty then [] else '.' :: fraction) ++
    'e' :: signedDecimal (d.point - 1)

end Decimal

namespace Binary32

/-! ## The text of a datum -/

/-- The units of the binary32 number nearest to `1e-4`, the least one written positionally. -/
def positionalFrom : Nat := unitsOfBits 0x38d1b717

/-- The units of the binary32 number nearest to `1e16`, the first one too large to be positional. -/
def positionalBelow : Nat := unitsOfBits 0x5a0e1bca

/-- The shortest decimal of a magnitude, or `0.0`. -/
def magnitudeText (units : Nat) : List Char :=
  if units = 0 then ['0', '.', '0']
  else if positionalFrom ≤ units ∧ units < positionalBelow then
    (Decimal.shortest units).positional
  else (Decimal.shortest units).scientific

/-- A minus sign, or nothing. -/
def signText (negative : Bool) : List Char := if negative then ['-'] else []

/-- The text of a datum; a NaN shows neither sign nor payload. -/
def text : Binary32 → List Char
  | nan .. => ['N', 'a', 'N']
  | infinity s => signText s ++ ['i', 'n', 'f']
  | finite s n => signText s ++ magnitudeText n

end Binary32

/-! ## The text of lanes and registers -/

namespace Word

/-- A word as its bits and, in parentheses, as the number that they denote. -/
def debug (w : Word) : String := w.hex ++ " (" ++ String.ofList (Binary32.ofWord w).text ++ ")"

end Word

namespace Register

/-- A register on one line. -/
def debug (r : Register) : String :=
  "Vec4([" ++ ", ".intercalate (r.toList.map Word.debug) ++ "])"

/-- A register with one lane to a line, indented. -/
def pretty (r : Register) : String :=
  let line (w : Word) : String := "        " ++ w.debug ++ ",\n"
  "Vec4(\n    [\n" ++ String.join (r.toList.map line) ++ "    ],\n)"

end Register

end FourLane
