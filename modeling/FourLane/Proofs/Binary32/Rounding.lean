import FourLane.Proofs.Binary32.Magnitudes
import FourLane.Proofs.Binary32.Kinds

/-!
# Correct rounding

`Rounds negative v w` says that `w` is the rational number `v` rounded to nearest, ties to even, by the
numbers that words denote: no bit of the computation occurs in it. `Rounds.unique` shows that it leaves
one word only, and `rounds_rounded` that `Binary32.rounded` gives this word for a fraction of units. An
`Exact` result is what is rounded, or a word where there is nothing to round.

Everything below an infinity is compared by distances from `v`. A word with the other sign is never
nearer than zero is, so all of it comes back to the distances between magnitudes in `RoundsTo.nearest`.
-/

namespace FourLane

namespace Word

/-! ## Correct rounding -/

/-- Of the finite words `w` denotes a number that is nearest to `v`, and if another number is as near
then the significand of `w` is even. -/
structure Nearest (v : ℚ) (w : Word) : Prop where
  finite : w.IsFinite
  least : ∀ u : Word, u.IsFinite → |w.rational - v| ≤ |u.rational - v|
  even : ∀ u : Word, u.IsFinite → u.rational ≠ w.rational → |u.rational - v| = |w.rational - v| →
    Even w.significand

/-- `w` is `v` rounded to nearest, with the sign `negative`, which the exact result decides: a zero
or an infinity keeps it. -/
structure Rounds (negative : Bool) (v : ℚ) (w : Word) : Prop where
  sign : w.msb = negative
  nearest : |v| < 2 ^ 128 - 2 ^ 103 → Nearest v w
  overflow : 2 ^ 128 - 2 ^ 103 ≤ |v| → w = infinity negative
  underflow : |v| ≤ 2 ^ (-150 : ℤ) → w = zero negative

/-- Distances to a word of one sign are distances of magnitudes. -/
theorem abs_rational_sub_of_sign {negative : Bool} {w : Word} (h : w.msb = negative) (v : ℚ) :
    |w.rational - v| =
      |(Binary32.unitsOfBits w.magnitude : ℚ) / Binary32.unitsPerOne - signFactor negative * v| := by
  rw [rational_eq_units, h]
  cases negative
  · simp [signFactor]
  · rw [← abs_neg]
    simp [signFactor, add_comm]

/-- Between two numbers equally far from `v` everything is nearer to it. -/
theorem abs_sub_lt_of_between {p r s v : ℚ} (hp : p < r) (hs : r < s) (h : |p - v| = |s - v|) :
    |r - v| < |p - v| := by
  have hmiddle : v - p = s - v := by
    rcases abs_eq_abs.1 h with h | h <;> linarith
  rw [abs_sub_comm p, abs_of_pos (by linarith : 0 < v - p)]
  exact abs_lt.2 ⟨by linarith, by linarith⟩

theorem units_div_lt {b c : Nat} (h : b < c) :
    (Binary32.unitsOfBits b : ℚ) / Binary32.unitsPerOne <
      (Binary32.unitsOfBits c : ℚ) / Binary32.unitsPerOne :=
  (div_lt_div_iff_of_pos_right Binary32.cast_unitsPerOne_pos).2
    (Nat.cast_lt.2 (Binary32.unitsOfBits_strictMono h))

theorem rational_ne_of_magnitude_lt {x y : Word} (hsign : x.msb = y.msb)
    (h : x.magnitude < y.magnitude) : x.rational ≠ y.rational := by
  rw [rational_eq_units, rational_eq_units, hsign]
  exact fun heq => (units_div_lt h).ne (mul_left_cancel₀ (signFactor_ne_zero _) heq)

/-- A finite word with magnitude bits between two words of its sign, equally far from `v`, is nearer. -/
theorem exists_nearer {x y : Word} {v : ℚ} (hsign : x.msb = y.msb) (hy : y.IsFinite)
    (hgap : x.magnitude + 1 < y.magnitude) (hsame : |x.rational - v| = |y.rational - v|) :
    ∃ u : Word, u.IsFinite ∧ |u.rational - v| < |x.rational - v| := by
  rw [isFinite_iff] at hy
  have hweight : x.magnitude + 1 < Binary32.signWeight := (hgap.trans hy).trans (by decide)
  refine ⟨Binary32.signed y.msb (x.magnitude + 1), ?_, ?_⟩
  · rw [isFinite_iff, magnitude_signed _ hweight]
    exact hgap.trans hy
  · rw [abs_rational_sub_of_sign hsign, abs_rational_sub_of_sign rfl] at hsame
    rw [abs_rational_sub_of_sign hsign, abs_rational_sub_of_sign (msb_signed _ hweight),
      magnitude_signed _ hweight]
    exact abs_sub_lt_of_between (units_div_lt (Nat.lt_succ_self _)) (units_div_lt hgap) hsame

/-- Rounding determines the word. -/
theorem Rounds.unique {negative : Bool} {v : ℚ} {x y : Word} (hx : Rounds negative v x)
    (hy : Rounds negative v y) : x = y := by
  wlog hle : x.magnitude ≤ y.magnitude generalizing x y
  · exact (this hy hx (Nat.le_of_not_le hle)).symm
  rcases le_or_gt (2 ^ 128 - 2 ^ 103) |v| with hbig | hsmall
  · rw [hx.overflow hbig, hy.overflow hbig]
  have hsign : x.msb = y.msb := hx.sign.trans hy.sign.symm
  have hxv := hx.nearest hsmall
  have hyv := hy.nearest hsmall
  have hsame : |x.rational - v| = |y.rational - v| :=
    le_antisymm (hxv.least y hyv.finite) (hyv.least x hxv.finite)
  by_contra hne
  have hlt : x.magnitude < y.magnitude := hle.lt_of_ne fun h => hne (eq_of_magnitude_eq hsign h)
  have hrat : x.rational ≠ y.rational := rational_ne_of_magnitude_lt hsign hlt
  have hxeven := (even_significand_iff x).1 (hxv.even y hyv.finite hrat.symm hsame.symm)
  have hyeven := (even_significand_iff y).1 (hyv.even x hxv.finite hrat hsame)
  -- Both bits are even, so there are odd ones between them.
  have hgap : x.magnitude + 1 < y.magnitude := by
    refine Nat.lt_of_le_of_ne hlt fun h => ?_
    rw [← h] at hyeven
    exact Nat.even_add_one.1 hyeven hxeven
  obtain ⟨u, hu, hnearer⟩ := exists_nearer hsign hyv.finite hgap hsame
  exact (hxv.least u hu).not_gt hnearer

end Word

namespace Binary32

/-- The threshold of overflow is the midpoint below the infinity. -/
theorem midpoint_below_infinity :
    midpoint (infinityBits - 1) = (2 ^ 128 - 2 ^ 103) * unitsPerOne := by
  have hlast : unitsOfBits (infinityBits - 1) = (2 ^ 24 - 1) * 2 ^ 253 := by decide
  have hnext : unitsOfBits (infinityBits - 1 + 1) = 2 ^ 128 * 2 ^ 149 := by decide
  rw [midpoint, hlast, hnext, unitsPerOne]
  norm_num

/-- The threshold of underflow is the midpoint above zero. -/
theorem two_zpow_mul_unitsPerOne : (2 : ℚ) ^ (-150 : ℤ) * unitsPerOne = midpoint 0 := by
  have hnext : unitsOfBits (0 + 1) = 1 := by decide
  have hnone : unitsOfBits 0 = 0 := by decide
  rw [midpoint, hnone, hnext, unitsPerOne]
  norm_num

variable {negative : Bool} {q v : ℚ} {b : Nat}

theorem RoundsTo.eq_zero (h : RoundsTo q b) (hq : q ≤ midpoint 0) : b = 0 :=
  Nat.le_zero.1 (h.mono ⟨by simp, le_rfl, fun _ => Even.zero⟩ hq)

/-- How far a word is from a number, by sign and magnitude. -/
theorem abs_rational_sub (w : Word) (hq : 0 ≤ q)
    (hv : v = Word.signFactor negative * (q / unitsPerOne)) :
    |w.rational - v| =
      (if w.msb = negative then |(unitsOfBits w.magnitude : ℚ) - q| else unitsOfBits w.magnitude + q) /
        unitsPerOne := by
  have hone := cast_unitsPerOne_pos
  have hunits : (0 : ℚ) ≤ unitsOfBits w.magnitude := Nat.cast_nonneg _
  rw [w.rational_eq_units, hv, ← mul_div_assoc, ← mul_div_assoc, ← sub_div, abs_div, abs_of_pos hone]
  congr 1
  split
  · rename_i hsign
    rw [hsign, ← mul_sub, abs_mul, Word.abs_signFactor, one_mul]
  · rename_i hsign
    rw [Word.signFactor_of_ne hsign, neg_mul, ← neg_add', ← mul_add, abs_neg, abs_mul,
      Word.abs_signFactor, one_mul, abs_of_nonneg (add_nonneg hunits hq)]

/-- A magnitude that a number rounds to, with the number's sign, is the nearest word if it is
finite. -/
theorem nearest_of_roundsTo (hq : 0 ≤ q) (hv : v = Word.signFactor negative * (q / unitsPerOne))
    (h : RoundsTo q b) (hb : b < infinityBits) : Word.Nearest v (signed negative b) := by
  have hone := cast_unitsPerOne_pos
  have hweight : b < signWeight := hb.trans (by decide)
  have hmag : (signed negative b).magnitude = b := Word.magnitude_signed negative hweight
  have hmsb : (signed negative b).msb = negative := Word.msb_signed negative hweight
  have hzero : |(unitsOfBits 0 : ℚ) - q| = q := by
    rw [unitsOfBits_of_small (by decide), Nat.cast_zero, zero_sub, abs_neg, abs_of_nonneg hq]
  have hself : |(signed negative b).rational - v| = |(unitsOfBits b : ℚ) - q| / unitsPerOne := by
    rw [abs_rational_sub _ hq hv, hmag, if_pos hmsb]
  refine ⟨?_, fun u hu => ?_, fun u hu hne hsame => ?_⟩
  · rwa [Word.isFinite_iff, hmag]
  · rw [hself, abs_rational_sub u hq hv, div_le_div_iff_of_pos_right hone]
    split
    · exact (h.nearest u.magnitude).1
    · exact ((h.nearest 0).1.trans_eq hzero).trans (le_add_of_nonneg_left (Nat.cast_nonneg _))
  · rw [hself, abs_rational_sub u hq hv, div_left_inj' hone.ne'] at hsame
    rw [Word.even_significand_iff, hmag]
    split at hsame
    · rename_i hsign
      refine (h.nearest u.magnitude).2 (fun hmagnitude => hne ?_) hsame
      rw [Word.eq_of_magnitude_eq (hsign.trans hmsb.symm) (hmagnitude.trans hmag.symm)]
    · -- Across zero nothing is as near as zero itself, which is even.
      rcases Nat.eq_zero_or_pos b with rfl | hpos
      · exact Even.zero
      · refine (h.nearest 0).2 hpos.ne (le_antisymm ?_ (h.nearest 0).1)
        rw [hzero, ← hsame]
        exact le_add_of_nonneg_left (Nat.cast_nonneg _)

/-- With the magnitudes past the infinity cut off, it is the rounding of the number. -/
theorem rounds_of_roundsTo (hq : 0 ≤ q) (hv : v = Word.signFactor negative * (q / unitsPerOne))
    (h : RoundsTo q b) : Word.Rounds negative v (signed negative (min b infinityBits)) := by
  have hone := cast_unitsPerOne_pos
  have habs : |v| = q / unitsPerOne := by
    rw [hv, abs_mul, Word.abs_signFactor, one_mul, abs_of_nonneg (div_nonneg hq hone.le)]
  have hthreshold : |v| < 2 ^ 128 - 2 ^ 103 ↔ b < infinityBits := by
    rw [habs, div_lt_iff₀ hone, ← midpoint_below_infinity, h.lt_infinityBits_iff]
  refine ⟨?_, fun hlt => ?_, fun hle => ?_, fun hle => ?_⟩
  · exact Word.msb_signed negative ((Nat.min_le_right _ _).trans_lt (by decide))
  · rw [Nat.min_eq_left (hthreshold.1 hlt).le]
    exact nearest_of_roundsTo hq hv h (hthreshold.1 hlt)
  · rw [Nat.min_eq_right (not_lt.1 (mt hthreshold.2 hle.not_gt)), Word.signed_infinityBits]
  · have hhalf : q ≤ midpoint 0 := by
      rw [habs, div_le_iff₀ hone] at hle
      exact hle.trans_eq two_zpow_mul_unitsPerOne
    rw [h.eq_zero hhalf, Nat.zero_min, Word.signed_zero]

theorem toWord_finite (negative : Bool) (b : Nat) :
    (Binary32.finite negative (unitsOfBits b)).toWord = signed negative b := by
  rw [toWord, bitsOfUnits_unitsOfBits]

/-- The library rounds the quotient that it is given. -/
theorem rounds_rounded (negative : Bool) (num : Nat) {den : Nat} (h : 0 < den)
    (hv : v = Word.signFactor negative * ((num : ℚ) / den / unitsPerOne)) :
    Word.Rounds negative v (rounded negative num den).toWord := by
  obtain ⟨b, hunits, hb⟩ := exists_roundsTo num h
  have hword : (rounded negative num den).toWord = signed negative (min b infinityBits) := by
    rw [rounded, hunits, ← unitsOfBits_infinityBits]
    split
    · rename_i hlt
      rw [toWord_finite, Nat.min_eq_left (unitsOfBits_strictMono.lt_iff_lt.1 hlt).le]
    · rename_i hlt
      rw [Nat.min_eq_right (not_lt.1 (mt unitsOfBits_strictMono.lt_iff_lt.2 hlt)), toWord]
  rw [hword]
  exact rounds_of_roundsTo (by positivity) hv hb

end Binary32

namespace Word

/-! ## Exact results -/

/-- The exact result of an operation: a word that needs no rounding, or a number and the sign that it
keeps where it is rounded to a zero or an infinity. -/
inductive Exact where
  | word (w : Word)
  | number (negative : Bool) (v : ℚ)

/-- The word `w` holds the exact result, rounded once. -/
def Exact.IsStoredAs : Exact → Word → Prop
  | word u, w => w = u
  | number negative v, w => Rounds negative v w

theorem Exact.IsStoredAs.unique {e : Exact} {x y : Word} (hx : e.IsStoredAs x)
    (hy : e.IsStoredAs y) : x = y := by
  cases e with
  | word u => exact Eq.trans hx hy.symm
  | number negative v => exact Rounds.unique hx hy

theorem Exact.IsStoredAs.iff {e : Exact} {x : Word} (h : e.IsStoredAs x) (y : Word) :
    e.IsStoredAs y ↔ x = y := by
  constructor
  · exact h.unique
  · rintro rfl
    exact h

end Word

end FourLane
