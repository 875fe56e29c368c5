import FourLane.Proofs.Binary32.Neighbours

/-!
# The other sign

`negate` turns the sign bit of a word around and leaves the bits below it. The number changes its sign
and the kind stays, so a word is nearest to a number exactly if the negated word is nearest to the
opposite number: rounding to nearest does not prefer a side (`Rounds.negate`).
-/

namespace FourLane.Word

/-- The word with the other sign. -/
def negate (x : Word) : Word := x ^^^ 0x80000000

section

variable {x y w : Word}

@[simp] theorem msb_negate (x : Word) : (negate x).msb = !x.msb := by
  rw [negate, BitVec.msb_xor, show (0x80000000 : Word).msb = true from rfl, Bool.xor_true]

@[simp] theorem magnitude_negate (x : Word) : (negate x).magnitude = x.magnitude := by
  have hweight : Binary32.signWeight = 2 ^ 31 := rfl
  rw [magnitude, magnitude, negate, BitVec.toNat_xor, hweight, Nat.xor_mod_two_pow,
    show (0x80000000 : Word).toNat % 2 ^ 31 = 0 from rfl, Nat.xor_zero]

@[simp] theorem negate_negate (x : Word) : negate (negate x) = x := by
  rw [negate, negate, BitVec.xor_assoc, BitVec.xor_self, BitVec.xor_zero]

theorem negate_zero (negative : Bool) : negate (zero negative) = zero (!negative) := by
  cases negative <;> rfl

theorem negate_infinity (negative : Bool) : negate (infinity negative) = infinity (!negative) := by
  cases negative <;> rfl

theorem signFactor_not (negative : Bool) : signFactor (!negative) = -signFactor negative :=
  signFactor_of_ne (by cases negative <;> decide)

@[simp] theorem rational_negate (x : Word) : (negate x).rational = -x.rational := by
  rw [rational_eq_units, rational_eq_units, msb_negate, magnitude_negate, signFactor_not, neg_mul]

theorem isFinite_negate (x : Word) : (negate x).IsFinite ↔ x.IsFinite := by
  rw [isFinite_iff, isFinite_iff, magnitude_negate]

/-- The fraction is what is left of the magnitude when whole exponents are taken away. -/
theorem fractionField_eq (x : Word) : x.fractionField = x.magnitude % 2 ^ 23 := by
  have hf := x.fields_lt.2
  rw [magnitude_eq]
  omega

theorem kind_negate (x : Word) : (negate x).kind = x.kind := by
  simp only [kind, isFinite_negate, rational_negate, neg_eq_zero, fractionField_eq, magnitude_negate]

/-! ## Rounding on the other side -/

/-- Distances and ties are the same on the other side of zero. -/
theorem Nearest.negate {v : ℚ} (h : Nearest v w) : Nearest (-v) (negate w) := by
  have hself : |(Word.negate w).rational - -v| = |w.rational - v| := by
    rw [rational_negate, ← neg_sub', abs_neg]
  have hother (u : Word) : |u.rational - -v| = |(Word.negate u).rational - v| := by
    rw [rational_negate, ← neg_add', abs_neg, sub_neg_eq_add]
  refine ⟨(isFinite_negate w).2 h.finite, ?_, ?_⟩
  · intro u hu
    rw [hself, hother]
    exact h.least _ ((isFinite_negate u).2 hu)
  · intro u hu hne hsame
    rw [hself, hother] at hsame
    rw [even_significand_iff, magnitude_negate, ← even_significand_iff]
    refine h.even _ ((isFinite_negate u).2 hu) (fun heq => hne ?_) hsame
    rw [rational_negate, ← heq, rational_negate, neg_neg]

/-- Rounding commutes with negation, thresholds and signs included. -/
theorem Rounds.negate {negative : Bool} {v : ℚ} (h : Rounds negative v w) :
    Rounds (!negative) (-v) (negate w) where
  sign := by rw [msb_negate, h.sign]
  nearest := by
    intro hlt
    rw [abs_neg] at hlt
    exact (h.nearest hlt).negate
  overflow := by
    intro hle
    rw [abs_neg] at hle
    rw [h.overflow hle, negate_infinity]
  underflow := by
    intro hle
    rw [abs_neg] at hle
    rw [h.underflow hle, negate_zero]

/-- The opposite of an exact result. -/
def Exact.negate : Exact → Exact
  | word w => word (Word.negate w)
  | number negative v => number (!negative) (-v)

theorem Exact.IsStoredAs.negate {e : Exact} (h : e.IsStoredAs w) : e.negate.IsStoredAs (Word.negate w) := by
  cases e with
  | word u => exact congrArg Word.negate h
  | number negative v => exact Rounds.negate h

end

end FourLane.Word
