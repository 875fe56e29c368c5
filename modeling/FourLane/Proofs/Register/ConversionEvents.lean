import FourLane.Proofs.Binary32.Numbers
import FourLane.Proofs.Register.RoundTrips
import Mathlib.Tactic.TFAE

/-!
# What a conversion to integers reports

A lane is reported if it is a NaN, or if its truncated number is not an integer of 32 bits. The library
decides the second by whether two bounds with fractions change the position of the lane. That this comes
to the same is a fact about words: a word past the range denotes a whole number, so none of them stands
between the end of the range and the bound (`integer_range_tfae`).
-/

namespace FourLane

/-! ## The range of integers -/

namespace Binary32

theorem lowerBound_le : lowerBound ≤ -2 ^ 31 * (unitsPerOne : Int) := by decide

theorem le_upperBound : (2 ^ 31 - 1) * (unitsPerOne : Int) ≤ upperBound := by decide

end Binary32

namespace Word

variable {x : Word}

/-- There is no word with a fraction at the ends of the range or past them. -/
theorem exists_integer_of_past (h : x.rational ≤ -2 ^ 31 ∨ 2 ^ 31 - 1 ≤ x.rational) :
    ∃ k : Int, x.rational = k := by
  refine exists_integer_of_le (le_abs.2 ?_)
  rcases h with h | h
  · right
    linarith
  · left
    linarith

/-- That the bounds leave a word alone, that it is truncated into the range of integers, and that its
number is in the range itself, are the same. -/
theorem integer_range_tfae (h : x.IsFinite) :
    [(Binary32.ofWord x).exceedsInteger = false,
      -2 ^ 31 ≤ towardZero x.rational ∧ towardZero x.rational < 2 ^ 31,
      -2 ^ 31 ≤ x.rational ∧ x.rational < 2 ^ 31].TFAE := by
  have hone := Binary32.cast_unitsPerOne_pos
  obtain ⟨p, hp⟩ : ∃ p, p = Binary32.signedUnits x.msb (Binary32.unitsOfBits x.magnitude) := ⟨_, rfl⟩
  have hrat : x.rational = p / Binary32.unitsPerOne := by rw [hp, rational_eq_signedUnits]
  have htrunc : towardZero x.rational = Binary32.truncate p := by
    rw [hrat, towardZero_div _ Binary32.unitsPerOne_pos, Binary32.truncate]
  have hexceeds : (Binary32.ofWord x).exceedsInteger = false ↔
      Binary32.lowerBound ≤ p ∧ p ≤ Binary32.upperBound := by
    rw [Binary32.exceedsInteger, position_of_isFinite h, ← hp, ← Binary32.clampPosition_eq_iff]
    simp
  tfae_have 1 → 2 := by
    rw [hexceeds, htrunc]
    rintro ⟨hlow, hhigh⟩
    have hlow' := Binary32.truncate_mono hlow
    have hhigh' := Binary32.truncate_mono hhigh
    rw [Binary32.truncate_lowerBound] at hlow'
    rw [Binary32.truncate_upperBound] at hhigh'
    omega
  tfae_have 2 → 3 := by
    rintro ⟨hlow, hhigh⟩
    constructor
    · by_contra! hlt
      -- Truncation would take a fraction back into the range, but no word is one there.
      obtain ⟨k, hk⟩ := exists_integer_of_past (.inl hlt.le)
      rw [hk, towardZero_intCast] at hlow
      rw [hk] at hlt
      exact hlow.not_gt (by exact_mod_cast hlt)
    · by_contra! hle
      exact hhigh.not_ge (le_towardZero (by decide) (by exact_mod_cast hle))
  tfae_have 3 → 1 := by
    rintro ⟨hlow, hhigh⟩
    rw [hexceeds]
    constructor
    · rw [hrat, le_div_iff₀ hone] at hlow
      exact Binary32.lowerBound_le.trans (by exact_mod_cast hlow)
    · by_contra! hlt
      have hpast : (2 ^ 31 - 1 : ℚ) < x.rational := by
        rw [hrat, lt_div_iff₀ hone]
        exact_mod_cast Binary32.le_upperBound.trans_lt hlt
      -- Only fractions stand between the last integer and the next, where the bound is.
      obtain ⟨k, hk⟩ := exists_integer_of_past (.inr hpast.le)
      rw [hk] at hpast hhigh
      have hkpast : (2 ^ 31 - 1 : Int) < k := by exact_mod_cast hpast
      have hkhigh : k < (2 ^ 31 : Int) := by exact_mod_cast hhigh
      omega
  tfae_finish

/-! ## The event of a word -/

/-- What a conversion to integers is to report of a word: that it is a NaN, or that its number is not,
after truncation, an integer of 32 bits. -/
def exactEvent? (x : Word) : Option Event :=
  match x.kind with
  | .nan => some (.nanToInteger x)
  | .infinite => some (.clampedToInteger x)
  | .zero | .nonzero =>
    if -2 ^ 31 ≤ towardZero x.rational ∧ towardZero x.rational < 2 ^ 31 then none
    else some (.clampedToInteger x)

theorem exactEvent?_of_isFinite (h : x.IsFinite) :
    x.exactEvent? =
      if -2 ^ 31 ≤ towardZero x.rational ∧ towardZero x.rational < 2 ^ 31 then none
      else some (.clampedToInteger x) := by
  unfold exactEvent?
  rcases (isFinite_iff_kind x).1 h with hkind | hkind <;> rw [hkind]

theorem exceedsInteger_infinity (negative : Bool) :
    (Binary32.infinity negative).exceedsInteger = true := by
  cases negative <;> decide +kernel

/-- The library tests positions where the statement asks for numbers. -/
theorem conversionEvent?_eq_exactEvent? (x : Word) : Register.conversionEvent? x = x.exactEvent? := by
  by_cases hfin : x.IsFinite
  · have hnan : x.isNaN = false := by
      rw [isNaN, ofWord_of_isFinite hfin]
      rfl
    have hrange : (Binary32.ofWord x).exceedsInteger = false ↔ _ := (integer_range_tfae hfin).out 0 1
    rw [Register.conversionEvent?, hnan, exactEvent?_of_isFinite hfin]
    simp only [← hrange]
    cases (Binary32.ofWord x).exceedsInteger <;> rfl
  · have hx := x.reading
    rw [Register.conversionEvent?, isNaN, exactEvent?]
    generalize x.kind = k, Binary32.ofWord x = d at hx
    cases hx with
    | nan => rfl
    | infinite => simp [Binary32.isNaN, exceedsInteger_infinity]
    | zero _ h | nonzero h => exact absurd h hfin

theorem exactEvent?_cases (x : Word) :
    x.exactEvent? = none ∨ x.exactEvent? = some (.nanToInteger x) ∨
      x.exactEvent? = some (.clampedToInteger x) := by
  unfold exactEvent?
  cases x.kind with
  | nan => exact .inr (.inl rfl)
  | infinite => exact .inr (.inr rfl)
  | zero | nonzero =>
    dsimp only
    split
    · exact .inl rfl
    · exact .inr (.inr rfl)

theorem exactEvent?_eq_nanToInteger_iff (x : Word) :
    x.exactEvent? = some (.nanToInteger x) ↔ x.value = none := by
  rw [value_eq_none_iff]
  by_cases hfin : x.IsFinite
  · rw [exactEvent?_of_isFinite hfin]
    simp [kind_ne_nan_of_isFinite hfin]
  · unfold exactEvent?
    cases hkind : x.kind with
    | nan | infinite => simp
    | zero => exact absurd ((isFinite_iff_kind x).2 (.inl hkind)) hfin
    | nonzero => exact absurd ((isFinite_iff_kind x).2 (.inr hkind)) hfin

theorem exactEvent?_eq_clampedToInteger_iff_of_isFinite (h : x.IsFinite) :
    x.exactEvent? = some (.clampedToInteger x) ↔ x.rational < -2 ^ 31 ∨ 2 ^ 31 ≤ x.rational := by
  have hrange := (integer_range_tfae h).out 1 2
  have hpast : (x.rational < -2 ^ 31 ∨ 2 ^ 31 ≤ x.rational) ↔
      ¬ (-2 ^ 31 ≤ x.rational ∧ x.rational < 2 ^ 31) := by
    rw [not_and_or, not_le, not_lt]
  rw [hpast, ← hrange, exactEvent?_of_isFinite h]
  simp

/-- Past the range are the numbers from `2 ^ 31` on and those below `-2 ^ 31`. -/
theorem exactEvent?_eq_clampedToInteger_iff (x : Word) :
    x.exactEvent? = some (.clampedToInteger x) ↔
      ∃ v, x.value = some v ∧ (v < ((-2 ^ 31 : ℝ) : EReal) ∨ ((2 ^ 31 : ℝ) : EReal) ≤ v) := by
  cases hx : x.value with
  | none =>
    have hnan := (exactEvent?_eq_nanToInteger_iff x).2 hx
    simp [hnan]
  | some v =>
    simp only [Option.some.injEq, exists_eq_left']
    cases numbered hx with
    | infinite hkind _ _ hv =>
      refine iff_of_true (by rw [exactEvent?, hkind]) ?_
      rw [hv]
      cases x.msb with
      | false => exact .inr le_top
      | true => exact .inl (EReal.bot_lt_coe _)
    | zero _ hfin | nonzero _ hfin =>
      obtain rfl := eq_rational_of_value hx hfin
      rw [exactEvent?_eq_clampedToInteger_iff_of_isFinite hfin, EReal.coe_lt_coe_iff,
        EReal.coe_le_coe_iff]
      norm_cast

/-- Nothing is reported of the numbers in the range of integers. -/
theorem exactEvent?_eq_none_iff (x : Word) :
    x.exactEvent? = none ↔
      ∃ v, x.value = some v ∧ ((-2 ^ 31 : ℝ) : EReal) ≤ v ∧ v < ((2 ^ 31 : ℝ) : EReal) := by
  have hnan := x.exactEvent?_eq_nanToInteger_iff
  have hclamped := x.exactEvent?_eq_clampedToInteger_iff
  cases hx : x.value with
  | none => simp [hnan.2 hx]
  | some v =>
    simp only [hx, Option.some.injEq, exists_eq_left', reduceCtorEq, iff_false] at hnan hclamped ⊢
    have hrange : (((-2 ^ 31 : ℝ) : EReal) ≤ v ∧ v < ((2 ^ 31 : ℝ) : EReal)) ↔
        ¬ (v < ((-2 ^ 31 : ℝ) : EReal) ∨ ((2 ^ 31 : ℝ) : EReal) ≤ v) := by
      rw [not_or, not_lt, not_le]
    rw [hrange, ← hclamped]
    rcases x.exactEvent?_cases with h | h | h
    · simp [h]
    · exact absurd h hnan
    · simp [h]

-- The end of the range itself, and the next word below it.
example : exactEvent? 0xcf000000 = none ∧
    exactEvent? 0xcf000001 = some (.clampedToInteger 0xcf000001) := by
  decide +kernel

end Word

end FourLane
