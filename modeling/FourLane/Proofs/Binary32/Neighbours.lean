import FourLane.Proofs.Binary32.Rounding

/-!
# The words around a number

The finite words stand in a row on the line of numbers. `Next` says that no word is between two of
them, and magnitude bits that follow one another make such a pair (`next_signed`). The word nearest to
a number keeps its side of every other word (`Nearest.le`, `Nearest.ge`), which turns a bound on the
exact result of an operation into a bound on the word that is stored.
-/

namespace FourLane.Word

/-! ## Normal words -/

/-- The significand has its leading one, so all twenty-four of its bits count. -/
def IsNormal (w : Word) : Prop := 0 < w.exponentField ∧ w.exponentField < 255

theorem isNormal_of_le {w : Word} (hfin : w.IsFinite) (h : (2 : ℚ) ^ (-126 : ℤ) ≤ |w.rational|) :
    w.IsNormal := by
  refine ⟨Nat.pos_of_ne_zero fun hfield => h.not_gt ?_, hfin⟩
  have hone := Binary32.cast_unitsPerOne_pos
  have hmag : w.magnitude < 2 ^ 23 := by
    rw [magnitude_eq, hfield, Nat.zero_mul, Nat.zero_add]
    exact w.fields_lt.2
  have hunits : Binary32.unitsOfBits w.magnitude < 2 ^ 23 := by
    rwa [Binary32.unitsOfBits_of_small (hmag.trans (by decide))]
  have hleast : (2 : ℚ) ^ (-126 : ℤ) * Binary32.unitsPerOne = (2 ^ 23 : Nat) := by
    rw [Binary32.unitsPerOne]
    norm_num
  rw [abs_rational, div_lt_iff₀ hone, hleast]
  exact Nat.cast_lt.2 hunits

/-! ## Nothing between -/

/-- `y` is the binary32 number that follows `x`. -/
structure Next (x y : Word) : Prop where
  left : x.IsFinite
  right : y.IsFinite
  lt : x.rational < y.rational
  gap : ∀ u : Word, u.IsFinite → u.rational ≤ x.rational ∨ y.rational ≤ u.rational

section

variable {b : Nat} (h : b < Binary32.infinityBits)

include h

theorem lt_signWeight : b < Binary32.signWeight := h.trans (by decide)

theorem isFinite_signed (negative : Bool) : (Binary32.signed negative b).IsFinite := by
  rwa [isFinite_iff, magnitude_signed _ (lt_signWeight h)]

theorem rational_signed_false :
    (Binary32.signed false b).rational = (Binary32.unitsOfBits b : ℚ) / Binary32.unitsPerOne := by
  rw [rational_of_positive (msb_signed _ (lt_signWeight h)), magnitude_signed _ (lt_signWeight h)]

end

theorem units_div_le {b c : Nat} (h : b ≤ c) :
    (Binary32.unitsOfBits b : ℚ) / Binary32.unitsPerOne ≤
      (Binary32.unitsOfBits c : ℚ) / Binary32.unitsPerOne :=
  h.eq_or_lt.elim (fun heq => heq ▸ le_rfl) fun hlt => (units_div_lt hlt).le

theorem next_signed {b : Nat} (h : b + 1 < Binary32.infinityBits) :
    Next (Binary32.signed false b) (Binary32.signed false (b + 1)) := by
  have hb : b < Binary32.infinityBits := b.lt_succ_self.trans h
  refine ⟨isFinite_signed hb _, isFinite_signed h _, ?_, fun u _ => ?_⟩
  · rw [rational_signed_false hb, rational_signed_false h]
    exact units_div_lt b.lt_succ_self
  · rw [rational_signed_false hb, rational_signed_false h]
    cases hu : u.msb with
    | true => exact .inl ((rational_nonpos hu).trans (by positivity))
    | false =>
      rw [rational_of_positive hu]
      exact (Nat.lt_or_ge u.magnitude (b + 1)).imp (fun hlt => units_div_le (Nat.le_of_lt_succ hlt))
        units_div_le

/-! ## Sides -/

section

variable {K : Type*} [Field K] [LinearOrder K] [IsStrictOrderedRing K] {r u s t : K}

/-- Beyond the middle of two numbers the greater one is nearer. -/
theorem abs_sub_lt_of_middle_lt (h : u < r) (hs : (u + r) / 2 < s) : |r - s| < |u - s| := by
  rw [abs_of_neg (by linarith : u - s < 0)]
  exact abs_lt.2 ⟨by linarith, by linarith⟩

theorem abs_sub_lt_of_lt_middle (h : r < u) (hs : s < (r + u) / 2) : |r - s| < |u - s| := by
  rw [abs_of_pos (by linarith : 0 < u - s)]
  exact abs_lt.2 ⟨by linarith, by linarith⟩

/-- Of two numbers the lesser has the lesser neighbour: a greater one would put the middle of the
neighbours both above the one number and below the other. -/
theorem le_of_nearer (h : s < t) (hr : |r - s| ≤ |u - s|) (hu : |u - t| ≤ |r - t|) : r ≤ u := by
  by_contra! hlt
  rcases lt_or_ge ((u + r) / 2) t with hmiddle | hmiddle
  · exact hu.not_gt (abs_sub_lt_of_middle_lt hlt hmiddle)
  · exact hr.not_gt (abs_sub_lt_of_lt_middle hlt (h.trans_le hmiddle))

end

section

variable {u w : Word} {v : ℚ}

/-- A word that is not above a number is not above the nearest word either. -/
theorem Nearest.le (h : Nearest v w) (hu : u.IsFinite) (huv : u.rational ≤ v) :
    u.rational ≤ w.rational := by
  have hnear := h.least u hu
  rw [abs_of_nonpos (sub_nonpos.2 huv)] at hnear
  linarith [neg_abs_le (w.rational - v)]

theorem Nearest.ge (h : Nearest v w) (hu : u.IsFinite) (huv : v ≤ u.rational) :
    w.rational ≤ u.rational := by
  have hnear := h.least u hu
  rw [abs_of_nonneg (sub_nonneg.2 huv)] at hnear
  linarith [le_abs_self (w.rational - v)]

/-- A number that a word denotes is kept. -/
theorem Nearest.eq (h : Nearest v w) (hu : u.IsFinite) (huv : u.rational = v) : w.rational = v :=
  (h.ge hu huv.ge).trans_eq huv |>.antisymm (huv.ge.trans (h.le hu huv.le))

end

/-- A finite word is its own rounding. -/
theorem rounds_rational {w : Word} (h : w.IsFinite) : Rounds w.msb w.rational w := by
  have hrounds : Rounds w.msb w.rational _ :=
    Binary32.rounds_of_roundsTo (Nat.cast_nonneg _) w.rational_eq_units
      (Binary32.roundsTo_unitsOfBits w.magnitude)
  rwa [Nat.min_eq_left ((isFinite_iff w).1 h).le, signed_magnitude] at hrounds

/-- A number is not rounded to a NaN. -/
theorem Rounds.kind_ne_nan {negative : Bool} {v : ℚ} {w : Word} (h : Rounds negative v w) :
    w.kind ≠ .nan := by
  rcases lt_or_ge |v| (2 ^ 128 - 2 ^ 103) with hsmall | hbig
  · exact kind_ne_nan_of_isFinite (h.nearest hsmall).finite
  · rw [h.overflow hbig, kind_infinity]
    decide

/-- What is at least the least normal number is stored as a normal word. -/
theorem isNormal_of_rounds {negative : Bool} {v : ℚ} {w : Word} (h : Rounds negative v w)
    (hlow : (2 : ℚ) ^ (-126 : ℤ) ≤ v) (hhigh : v < 2 ^ 128 - 2 ^ 103) : w.IsNormal := by
  have hpos : 0 < v := (by positivity : (0 : ℚ) < 2 ^ (-126 : ℤ)).trans_le hlow
  have hnear := h.nearest (by rwa [abs_of_pos hpos])
  have hleast : rational 0x00800000 = (2 : ℚ) ^ (-126 : ℤ) := by
    have hexp : exponentField 0x00800000 = 1 := by decide
    have hsig : significand 0x00800000 = 2 ^ 23 := by decide
    have hmsb : (0x00800000 : Word).msb = false := by decide
    rw [rational, hexp, hsig, hmsb]
    norm_num
  have hle : rational 0x00800000 ≤ w.rational := hnear.le (by decide) (hleast.trans_le hlow)
  refine isNormal_of_le hnear.finite ?_
  rw [← hleast]
  exact hle.trans (le_abs_self _)

theorem eq_of_rational_eq {x y : Word} (hsign : x.msb = y.msb) (h : x.rational = y.rational) : x = y := by
  rcases lt_trichotomy x.magnitude y.magnitude with hlt | heq | hlt
  · exact absurd h (rational_ne_of_magnitude_lt hsign hlt)
  · exact eq_of_magnitude_eq hsign heq
  · exact absurd h.symm (rational_ne_of_magnitude_lt hsign.symm hlt)

end FourLane.Word
