import FourLane.Binary32.Basic

/-!
# Rounding a magnitude once

An exact magnitude is a quotient of natural numbers, counted in units of `2 ^ -149`. The numbers
that a word can hold around it stand at equal steps: one unit at the bottom, and from twenty-five
significant bits on the step that leaves twenty-four. Rounding goes to the nearest of them, to the
even one from the middle; what reaches `2 ^ 128` overflows to infinity.

For a square root the whole root is found two bits of the radicand at a time. The rounded root is the
multiple of the spacing nearest to the exact root; the comparison with the midpoint squares both sides,
so nothing but natural numbers is compared.
-/

namespace FourLane.Binary32

/-! ## Quotients -/

/-- The whole number nearest to `num / den`, the even one if two are equally near. -/
def nearestEven (num den : Nat) : Nat :=
  let floor := num / den
  let rest := num % den
  if 2 * rest < den then floor
  else if den < 2 * rest then floor + 1
  else floor + floor % 2

/-- The distance between neighbouring binary32 numbers at a magnitude of this many units. -/
def spacing (units : Nat) : Nat := 2 ^ (units.log2 - fractionBits)

/-- The binary32 magnitude nearest to `num / den` units, as if exponents were unbounded above. -/
def roundUnits (num den : Nat) : Nat :=
  let step := spacing (num / den)
  nearestEven num (den * step) * step

/-- The units of `2 ^ 128`, the first magnitude that is too large. -/
def overflowUnits : Nat := 2 ^ (277 : Nat)

/-- The datum nearest to `num / den` units with this sign, an infinity past the greatest finite one. -/
def rounded (negative : Bool) (num den : Nat) : Binary32 :=
  let units := roundUnits num den
  if units < overflowUnits then .finite negative units else .infinity negative

/-! ## Square roots -/

/-- The whole square root of `n`, provided that `n < 4 ^ pairs`. -/
def floorSqrtBelow : Nat → Nat → Nat
  | 0, _ => 0
  | pairs + 1, n =>
    let root := 2 * floorSqrtBelow pairs (n / 4)
    if (root + 1) * (root + 1) ≤ n then root + 1 else root

/-- The whole square root of a natural number. -/
def floorSqrt (n : Nat) : Nat := floorSqrtBelow (n.log2 / 2 + 1) n

/-- The binary32 magnitude nearest to the square root of `n`, both counted in units. -/
def roundSqrt (n : Nat) : Nat :=
  let root := floorSqrt n
  let step := spacing root
  let low := root / step
  let twiceMiddle := (2 * low + 1) * step
  if twiceMiddle * twiceMiddle < 4 * n then (low + 1) * step else low * step

theorem floorSqrtBelow_bounds (pairs n : Nat) (h : n < 4 ^ pairs) :
    floorSqrtBelow pairs n * floorSqrtBelow pairs n ≤ n ∧
      n < (floorSqrtBelow pairs n + 1) * (floorSqrtBelow pairs n + 1) := by
  induction pairs generalizing n with
  | zero =>
    have hn : n = 0 := by simpa using h
    simp [floorSqrtBelow, hn]
  | succ pairs ih =>
    have hq : n / 4 < 4 ^ pairs := by
      rw [Nat.pow_succ] at h
      omega
    obtain ⟨hlow, hhigh⟩ := ih _ hq
    -- Two more bits of the radicand decide one more bit of the root; `r` is the root without it.
    simp only [floorSqrtBelow]
    generalize floorSqrtBelow pairs (n / 4) = r at hlow hhigh
    have h2 : 2 * r * (2 * r) = 4 * (r * r) := by
      rw [Nat.mul_mul_mul_comm]
    have h3 : (2 * r + 1 + 1) * (2 * r + 1 + 1) = 4 * ((r + 1) * (r + 1)) := by
      rw [show 2 * r + 1 + 1 = 2 * (r + 1) by omega, Nat.mul_mul_mul_comm]
    split <;> omega

/-- The whole root is the greatest number whose square is not above the radicand. -/
theorem floorSqrt_bounds (n : Nat) :
    floorSqrt n * floorSqrt n ≤ n ∧ n < (floorSqrt n + 1) * (floorSqrt n + 1) := by
  apply floorSqrtBelow_bounds
  have h : n < 2 ^ (n.log2 + 1) := Nat.lt_log2_self
  have hexp : 4 ^ (n.log2 / 2 + 1) = 2 ^ (2 * (n.log2 / 2 + 1)) := by
    rw [Nat.pow_mul]
  rw [hexp]
  exact Nat.lt_of_lt_of_le h (Nat.pow_le_pow_right (by decide) (by omega))

end FourLane.Binary32
