import FourLane.Binary32.Rounding

/-!
# Binary32 arithmetic, order and integers

Each operation computes the exact result and rounds it once. A result that is no number is always
the same quiet NaN. On words the operations read, compute and write; an expression of several of
them rounds after each.

Every datum but a NaN has a position on the line of units, the infinities at the places where finite
magnitudes end. Comparisons compare positions: both zeros stand at `0`, and a NaN stands nowhere, so
it is neither less nor greater nor equal.

An integer becomes the nearest binary32 number. A binary32 number becomes a 32-bit integer in three
steps: clamp to two binary64 bounds just outside the range, truncate toward zero, clamp to the
range. The bounds leave every number alone that truncates into the range.
-/

namespace FourLane.Binary32

/-! ## Arithmetic -/

/-- A number of units with a sign, on the line of units. -/
def signedUnits (negative : Bool) (units : Nat) : Int := if negative then -units else units

/-- The sum. An exact zero is positive unless both terms are negative zeros. -/
def add : Binary32 → Binary32 → Binary32
  | nan .., _ | _, nan .. => quietNaN
  | infinity s, infinity t => if s = t then infinity s else quietNaN
  | infinity s, finite .. => infinity s
  | finite .., infinity t => infinity t
  | finite s m, finite t n =>
    let total := signedUnits s m + signedUnits t n
    if total = 0 then finite (s && t) 0 else rounded (total < 0) total.natAbs 1

/-- The product. Its sign is the exclusive or of the signs, also where it is a zero or an infinity. -/
def mul : Binary32 → Binary32 → Binary32
  | nan .., _ | _, nan .. => quietNaN
  | infinity s, infinity t => infinity (s ^^ t)
  | infinity s, finite t n => if n = 0 then quietNaN else infinity (s ^^ t)
  | finite s m, infinity t => if m = 0 then quietNaN else infinity (s ^^ t)
  -- The product of two numbers of units counts `2 ^ -298`.
  | finite s m, finite t n => rounded (s ^^ t) (m * n) unitsPerOne

/-- The quotient. A nonzero number over zero is an infinity. -/
def div : Binary32 → Binary32 → Binary32
  | nan .., _ | _, nan .. => quietNaN
  | infinity .., infinity .. => quietNaN
  | infinity s, finite t _ => infinity (s ^^ t)
  | finite s _, infinity t => finite (s ^^ t) 0
  | finite s m, finite t n =>
    if n = 0 then if m = 0 then quietNaN else infinity (s ^^ t)
    else rounded (s ^^ t) (m * unitsPerOne) n

/-- The square root. Zeros keep their sign; no other negative datum has a root. -/
def sqrt : Binary32 → Binary32
  | nan .. => quietNaN
  | infinity s => if s then quietNaN else infinity false
  | finite s m =>
    if m = 0 then finite s 0
    else if s then quietNaN
    else finite false (roundSqrt (m * unitsPerOne))

/-- Neither the exact sum nor the sign of a zero knows the order of the terms. -/
theorem add_comm (x y : Binary32) : add x y = add y x := by
  cases x with
  | nan s payload => cases y <;> rfl
  | infinity s =>
    cases y with
    | nan t payload => rfl
    | infinity t =>
      by_cases h : s = t
      · rw [h]
      · simp only [add, if_neg h, if_neg (Ne.symm h)]
    | finite t n => rfl
  | finite s m =>
    cases y with
    | nan t payload => rfl
    | infinity t => rfl
    | finite t n => simp only [add, Int.add_comm (signedUnits s m), Bool.and_comm s]

/-- Neither the sign nor the magnitude of a product knows the order of the factors. -/
theorem mul_comm (x y : Binary32) : mul x y = mul y x := by
  cases x with
  | nan s payload => cases y <;> rfl
  | infinity s => cases y <;> simp only [mul, Bool.xor_comm s]
  | finite s m => cases y <;> simp only [mul, Bool.xor_comm s, Nat.mul_comm m]

/-! ## Order -/

/-- The place of a datum on the line of units; a NaN has none. -/
def position : Binary32 → Option Int
  | nan .. => none
  | infinity s => some (signedUnits s overflowUnits)
  | finite s n => some (signedUnits s n)

/-- Less than. No NaN is less than anything, nor anything less than it. -/
def lt (x y : Binary32) : Bool :=
  match x.position, y.position with
  | some p, some q => p < q
  | _, _ => false

/-- Greater than or equal, which beside a NaN is not the negation of less than. -/
def ge (x y : Binary32) : Bool :=
  match x.position, y.position with
  | some p, some q => q ≤ p
  | _, _ => false

/-- Not equal; every NaN is, to itself as well. -/
def ne (x y : Binary32) : Bool :=
  match x.position, y.position with
  | some p, some q => p ≠ q
  | _, _ => true

/-! ## Integers -/

/-- The binary32 number nearest to an integer. -/
def ofInt (k : Int) : Binary32 := rounded (k < 0) (k.natAbs * unitsPerOne) 1

/-- The binary64 number nearest to `-2147483648.999`, `-4503599629465551 / 2 ^ 21`, in units. -/
def lowerBound : Int := -((4503599629465551 * 2 ^ (128 : Nat) : Nat) : Int)

/-- The binary64 number nearest to `2147483647.999`, `4503599627368399 / 2 ^ 21`, in units. -/
def upperBound : Int := ((4503599627368399 * 2 ^ (128 : Nat) : Nat) : Int)

/-- A position kept between the two binary64 bounds. -/
def clampPosition (p : Int) : Int := max lowerBound (min p upperBound)

/-- The integer next to a position, toward zero. -/
def truncate (p : Int) : Int := p.tdiv unitsPerOne

/-- An integer kept in the range of signed words. -/
def clampInteger (k : Int) : Int := max (-2147483648) (min k 2147483647)

/-- The 32-bit signed integer of a datum; zero for a NaN. -/
def toInteger (x : Binary32) : Int :=
  match x.position with
  | none => 0
  | some p => clampInteger (truncate (clampPosition p))

/-- Whether the bounds change a datum; a NaN is not clamped. -/
def exceedsInteger (x : Binary32) : Bool :=
  match x.position with
  | none => false
  | some p => clampPosition p ≠ p

-- The bounds truncate to the ends of the range.

theorem truncate_lowerBound : truncate lowerBound = -2147483648 := by decide

theorem truncate_upperBound : truncate upperBound = 2147483647 := by decide

end FourLane.Binary32

namespace FourLane.Word

/-! ## Arithmetic on words -/

/-- The sum of two words, rounded once. -/
def fadd (x y : Word) : Word := (Binary32.add (.ofWord x) (.ofWord y)).toWord

theorem fadd_comm (x y : Word) : fadd x y = fadd y x :=
  congrArg Binary32.toWord (Binary32.add_comm (.ofWord x) (.ofWord y))

/-- The product of two words, rounded once. -/
def fmul (x y : Word) : Word := (Binary32.mul (.ofWord x) (.ofWord y)).toWord

theorem fmul_comm (x y : Word) : fmul x y = fmul y x :=
  congrArg Binary32.toWord (Binary32.mul_comm (.ofWord x) (.ofWord y))

/-- The quotient of two words, rounded once. -/
def fdiv (x y : Word) : Word := (Binary32.div (.ofWord x) (.ofWord y)).toWord

/-- The square root of a word, rounded once. -/
def fsqrt (x : Word) : Word := (Binary32.sqrt (.ofWord x)).toWord

/-- The word of `1.0`. -/
def fone : Word := 0x3f800000

/-- One over the square root, rounded after the root and again after the quotient. -/
def frsqrt (x : Word) : Word := fdiv fone (fsqrt x)

/-- Multiply, round, add, round: the unfused multiply-add. -/
def fmulAdd (x y z : Word) : Word := fadd (fmul x y) z

/-! ## Order on words -/

/-- Less than, of two words as binary32. -/
def flt (x y : Word) : Bool := Binary32.lt (.ofWord x) (.ofWord y)

/-- Greater than or equal, of two words as binary32. -/
def fge (x y : Word) : Bool := Binary32.ge (.ofWord x) (.ofWord y)

/-- Not equal, of two words as binary32. -/
def fne (x y : Word) : Bool := Binary32.ne (.ofWord x) (.ofWord y)

/-- Whether a word denotes no number. -/
def isNaN (x : Word) : Bool := (Binary32.ofWord x).isNaN

/-- The greater operand; the first if they are equal, the second if one is a NaN. -/
def fmax (x y : Word) : Word := if fge x y then x else y

/-- The lesser operand; the second if they are equal or one is a NaN. -/
def fmin (x y : Word) : Word := if flt x y then x else y

/-! ### The unit interval -/

/-- The greater number; a NaN gives way to the other operand. -/
def maxNumber (x y : Word) : Word :=
  if isNaN x then y else if isNaN y then x else if flt x y then y else x

/-- The lesser number; a NaN gives way to the other operand. -/
def minNumber (x y : Word) : Word :=
  if isNaN x then y else if isNaN y then x else if flt y x then y else x

/-- The nearest number in the unit interval; `1.0` for a NaN, and `+0.0` for both zeros. -/
def saturate (x : Word) : Word := maxNumber 0 (minNumber fone x)

/-- What an instruction stores for the result `x`: clamped if its modifier asks for that. -/
def store (sat : Bool) (x : Word) : Word := if sat then saturate x else x

@[simp] theorem store_false (x : Word) : store false x = x := rfl

@[simp] theorem store_true (x : Word) : store true x = saturate x := rfl

/-! ## Integers on words -/

/-- A word read as binary32, as the pattern of its integer. -/
def ftoi (x : Word) : Word := ofInt (Binary32.ofWord x).toInteger

/-- A word read as a signed integer, as the nearest binary32 number. -/
def itof (x : Word) : Word := (Binary32.ofInt x.toInt).toWord

/-- A word read as an unsigned integer, as the nearest binary32 number. -/
def utof (x : Word) : Word := (Binary32.ofInt x.toNat).toWord

end FourLane.Word
