import FourLane.Register.Basic

/-!
# What the instructions do to registers

Float instructions read their operands as binary32. Each takes the clamp modifier and applies it once, to
what it stores. A copy is the exception: with the modifier it fills the register with lane `x`.

Integer instructions wrap around. A comparison answers all ones in the lanes where it holds and zero in
the others, so that its answer can be combined with lanes bit by bit. Multiply-add, on either reading, and
exclusive or are the instructions that a dialect changes.

Conversions turn the number of one reading into a number of another. A conversion to integers reports the
lanes that hold no integer: NaNs, and numbers that the range cuts off.
-/

namespace FourLane

/-- A relation between two words. -/
inductive Comparison where
  /-- Binary32 greater than or equal, less than, not equal. -/
  | ge | lt | ne
  /-- Signed greater than or equal, less than, not equal. -/
  | ige | ilt | ine
  deriving DecidableEq, Repr

/-- Whether a comparison holds of two words, in the reading that it belongs to. -/
def Comparison.holds : Comparison → Word → Word → Bool
  | ge, x, y => Word.fge x y
  | lt, x, y => Word.flt x y
  | ne, x, y => Word.fne x y
  | ige, x, y => y.toInt ≤ x.toInt
  | ilt, x, y => x.toInt < y.toInt
  | ine, x, y => x.toInt ≠ y.toInt

namespace Register

open Word (fadd fmul fdiv fsqrt frsqrt fmax fmin fmulAdd store)

/-! ## Float instructions -/

/-- Copies the lanes; with the modifier, clamps lane `x` and writes it to every lane. -/
def mov (sat : Bool) (a : Register) : Register :=
  if sat then Quad.splat (store true a.x) else a

/-- Sums, lane by lane. -/
def add (sat : Bool) (a b : Register) : Register :=
  Quad.map₂ (fun x y => store sat (fadd x y)) a b

/-- Products, lane by lane. -/
def mul (sat : Bool) (a b : Register) : Register :=
  Quad.map₂ (fun x y => store sat (fmul x y)) a b

/-- Quotients, lane by lane. -/
def div (sat : Bool) (a b : Register) : Register :=
  Quad.map₂ (fun x y => store sat (fdiv x y)) a b

/-- Square roots, lane by lane. -/
def sqrt (sat : Bool) (a : Register) : Register := a.map fun x => store sat (fsqrt x)

/-- One over the square root, lane by lane. -/
def rsq (sat : Bool) (a : Register) : Register := a.map fun x => store sat (frsqrt x)

/-- The greater lane of two, the first of equals, the second beside a NaN. -/
def max (sat : Bool) (a b : Register) : Register :=
  Quad.map₂ (fun x y => store sat (fmax x y)) a b

/-- The lesser lane of two, the second of equals, the second beside a NaN. -/
def min (sat : Bool) (a b : Register) : Register :=
  Quad.map₂ (fun x y => store sat (fmin x y)) a b

/-- The sum of the products of the first `width` lanes, from `+0.0` and from lane `x` on. -/
def dot (width : Nat) (sat : Bool) (a b : Register) : Word :=
  store sat ((Lane.all.take width).foldl (fun sum l => fadd sum (fmul (a.get l) (b.get l))) 0)

/-! ## Integer instructions -/

/-- Sums modulo `2 ^ 32`, lane by lane. -/
def iadd (a b : Register) : Register := Quad.map₂ (fun x y => x + y) a b

/-- The lesser signed lane of two, the second of equals. -/
def imin (a b : Register) : Register :=
  Quad.map₂ (fun x y => if x.toInt < y.toInt then x else y) a b

/-! ## Masks -/

/-- The masks of a comparison, lane by lane. -/
def compare (c : Comparison) (a b : Register) : Register :=
  Quad.map₂ (fun x y => Word.ofMask (c.holds x y)) a b

/-- The bits that both lanes have. -/
def and (a b : Register) : Register := Quad.map₂ (fun x y => x &&& y) a b

/-! ## Instructions that a dialect changes -/

/-- The second factor of a multiply-add: the register itself or its lane `x` everywhere. -/
def factor (d : Dialect) (b : Register) : Register :=
  if d.has .factorFromLaneX then Quad.splat b.x else b

/-- Product plus summand, each rounded, lane by lane. -/
def mad (d : Dialect) (sat : Bool) (a b c : Register) : Register :=
  Quad.map₃ (fun x y z => store sat (fmulAdd x y z)) a (factor d b) c

/-- Product plus summand modulo `2 ^ 32`, lane by lane. -/
def imad (d : Dialect) (a b c : Register) : Register :=
  Quad.map₃ (fun x y z => x * y + z) a (factor d b) c

/-- The bits that exactly one lane has, or that either has if the dialect says so. -/
def xor (d : Dialect) (a b : Register) : Register :=
  if d.has .xorIsOr then Quad.map₂ (fun x y => x ||| y) a b
  else Quad.map₂ (fun x y => x ^^^ y) a b

/-! ## Conversions -/

/-- Binary32 to signed integers, lane by lane. -/
def ftoi (a : Register) : Register := a.map Word.ftoi

/-- Binary32 to integers by the range and the pattern of the signed conversion. -/
def ftou (a : Register) : Register := a.map Word.ftoi

/-- Signed integers to binary32, lane by lane. -/
def itof (a : Register) : Register := a.map Word.itof

/-- Unsigned integers to binary32, lane by lane. -/
def utof (a : Register) : Register := a.map Word.utof

/-- What the conversion of one lane to an integer reports. -/
def conversionEvent? (x : Word) : Option Event :=
  if x.isNaN then some (.nanToInteger x)
  else if (Binary32.ofWord x).exceedsInteger then some (.clampedToInteger x)
  else none

/-- What the conversion of a register to integers reports, in the order of lanes. -/
def conversionEvents (a : Register) : List Event := a.toList.filterMap conversionEvent?

end Register

end FourLane
