import FourLane.Register.Text
import FourLane.Proofs.Binary32.Rounding
import FourLane.Proofs.Decimal.Grid
import FourLane.Proofs.Decimal.Layout

/-!
# What the text of a lane says

`ShortestDecimal w k d` says of a rational number that it is rounded to the word `w`, that it has `k`
digits, that no decimal that is rounded to `w` has fewer, and that of those with so many none is nearer.
`Shows` says what a text is for a word of each kind; of a finite word that is not zero it writes such a
number.

From grids to words goes `rounds_iff_reads`: a number is rounded to a word if it has the word's sign and
its absolute value reads back as the word's magnitude.
-/

namespace FourLane.Word

open Binary32 (unitsOfBits unitsPerOne signText)
open Decimal (HasDigits Reads ReadsShortest Signed WrittenPositionally WrittenScientifically)

/-! ## Statements -/

/-- The decimal `d` has `k` digits and is rounded to `w`, no decimal that is rounded to `w` has fewer
digits, and of those that have `k` none is nearer to `w`. -/
structure ShortestDecimal (w : Word) (k : Nat) (d : ℚ) : Prop where
  rounds : Rounds (d < 0) d w
  digits : HasDigits k d
  fewest : ∀ d', Rounds (d' < 0) d' w → ∀ j < k, ¬ HasDigits j d'
  nearest : ∀ d', Rounds (d' < 0) d' w → HasDigits k d' →
    |d - w.rational| ≤ |d' - w.rational|

/-- The magnitude is at least that of the word nearest to `1e-4` and less than that of the word
nearest to `1e16`. -/
def InPositionalRange (w : Word) : Prop :=
  ∃ first last : Word, Rounds false (1 / 10 ^ 4) first ∧ Rounds false (10 ^ 16) last ∧
    first.rational ≤ |w.rational| ∧ |w.rational| < last.rational

/-- What a text says of a word of each kind: behind the sign of the word, if it is no NaN, a fixed name or
the shortest decimal. -/
def Shows (w : Word) (text : List Char) : Prop :=
  match w.kind with
  | .nan => text = ['N', 'a', 'N']
  | .infinite => Signed ['i', 'n', 'f'] w.msb text
  | .zero => Signed ['0', '.', '0'] w.msb text
  | .nonzero => ∃ k d body, ShortestDecimal w k d ∧ Signed body w.msb text ∧
      (InPositionalRange w → WrittenPositionally body |d|) ∧
      (¬ InPositionalRange w → WrittenScientifically body |d|)

/-! ## Words and grids -/

variable {w : Word} {k : Nat} {q : ℚ}

/-- One is `10 ^ 149` units of the grids, and `2 ^ 149` units of the magnitudes. -/
theorem ten_zpow_eq : (10 : ℚ) ^ (149 : ℤ) = (unitsPerOne : ℚ) * Decimal.decimalUnit := by
  rw [unitsPerOne, Decimal.decimalUnit]
  norm_num

/-- To read back as a word is to round to its magnitude on the decimal grid. -/
theorem rounds_iff_reads (hfin : w.IsFinite) :
    Rounds (q < 0) q w ↔
      w.msb = decide (q < 0) ∧ Reads w.magnitude (|q| * (10 : ℚ) ^ (149 : ℤ)) := by
  have hunit := Decimal.cast_decimalUnit_pos.ne'
  have hone := Binary32.cast_unitsPerOne_pos
  have hquot : 0 ≤ |q| * unitsPerOne := mul_nonneg (abs_nonneg q) hone.le
  have hv : q = signFactor (q < 0) * (|q| * unitsPerOne / unitsPerOne) := by
    rw [mul_div_cancel_right₀ _ hone.ne', signFactor_mul_abs]
  rw [Reads, ten_zpow_eq, ← mul_assoc, mul_div_cancel_right₀ _ hunit]
  rw [isFinite_iff] at hfin
  constructor
  · intro h
    obtain ⟨b, hb⟩ := Binary32.exists_roundsTo_of_nonneg hquot
    have hword := h.unique (Binary32.rounds_of_roundsTo hquot hv hb)
    have hmag : w.magnitude = min b Binary32.infinityBits := by
      rw [hword, magnitude_signed _ ((Nat.min_le_right _ _).trans_lt (by decide))]
    have heq : w.magnitude = b := by omega
    exact ⟨h.sign, heq ▸ hb⟩
  · rintro ⟨hsign, hb⟩
    have h := Binary32.rounds_of_roundsTo hquot hv hb
    rwa [Nat.min_eq_left hfin.le, ← hsign, signed_magnitude, hsign] at h

/-- Distances to a word are distances on the decimal grid, scaled. -/
theorem distance_on_grid (hsign : w.msb = decide (q < 0)) :
    |(|q| * (10 : ℚ) ^ (149 : ℤ) - Decimal.exact (unitsOfBits w.magnitude))| =
      |q - w.rational| * (10 : ℚ) ^ (149 : ℤ) := by
  have hpow : (0 : ℚ) < (10 : ℚ) ^ (149 : ℤ) := zpow_pos (by norm_num) _
  have hexact : (Decimal.exact (unitsOfBits w.magnitude) : ℚ) =
      (unitsOfBits w.magnitude : ℚ) / unitsPerOne * (10 : ℚ) ^ (149 : ℤ) := by
    rw [ten_zpow_eq, ← mul_assoc, div_mul_cancel₀ _ Binary32.cast_unitsPerOne_pos.ne', Decimal.exact,
      Nat.cast_mul]
  have habs : signFactor (q < 0) * q = |q| := by
    calc signFactor (q < 0) * q = signFactor (q < 0) * (signFactor (q < 0) * |q|) := by
          rw [signFactor_mul_abs]
      _ = |q| := by rw [← mul_assoc, signFactor_mul_self, one_mul]
  rw [hexact, ← sub_mul, abs_mul, abs_of_pos hpow, abs_sub_comm q, abs_rational_sub_of_sign hsign,
    habs, abs_sub_comm]

theorem hasDigits_on_grid : HasDigits k (|q| * (10 : ℚ) ^ (149 : ℤ)) ↔ HasDigits k q := by
  constructor
  · intro h
    have hback := h.mul_zpow (-149)
    rwa [mul_assoc, ← zpow_add₀ (by norm_num), add_neg_cancel, zpow_zero, mul_one,
      Decimal.hasDigits_abs] at hback
  · exact fun h => (Decimal.hasDigits_abs.2 h).mul_zpow 149

/-- What is shortest on grids is the shortest decimal of the word. -/
theorem shortestDecimal {d : ℚ} (hfin : w.IsFinite) (hsign : w.msb = decide (d < 0))
    (h : ReadsShortest w.magnitude k (|d| * (10 : ℚ) ^ (149 : ℤ))) : ShortestDecimal w k d := by
  refine ⟨(rounds_iff_reads hfin).2 ⟨hsign, h.reads⟩, hasDigits_on_grid.1 h.digits, ?_, ?_⟩
  · intro d' hd' j hj hdigits
    exact h.fewest _ ((rounds_iff_reads hfin).1 hd').2 j hj (hasDigits_on_grid.2 hdigits)
  · intro d' hd' hdigits
    obtain ⟨hsign', hreads⟩ := (rounds_iff_reads hfin).1 hd'
    have hle := h.nearest _ hreads (hasDigits_on_grid.2 hdigits)
    rw [distance_on_grid hsign, distance_on_grid hsign'] at hle
    exact le_of_mul_le_mul_right hle (zpow_pos (by norm_num) _)

/-! ## Which way a number is written -/

/-- The least word that is written positionally is the one nearest to `10 ^ -4`. -/
theorem rounds_first : Rounds false (1 / 10 ^ 4) 0x38d1b717 := by
  have hone := Binary32.cast_unitsPerOne_pos.ne'
  have hword : (Binary32.rounded false unitsPerOne (10 ^ 4)).toWord = 0x38d1b717 := by decide +kernel
  rw [← hword]
  refine Binary32.rounds_rounded false unitsPerOne (by decide) ?_
  rw [signFactor, if_neg Bool.false_ne_true, one_mul, div_right_comm, div_self hone]
  norm_num

/-- The least word above those that are written positionally is the one nearest to `10 ^ 16`. -/
theorem rounds_last : Rounds false (10 ^ 16) 0x5a0e1bca := by
  have hone := Binary32.cast_unitsPerOne_pos.ne'
  have hword : (Binary32.rounded false (10 ^ 16 * unitsPerOne) 1).toWord = 0x5a0e1bca := by
    decide +kernel
  rw [← hword]
  refine Binary32.rounds_rounded false _ (by decide) ?_
  rw [signFactor, if_neg Bool.false_ne_true, one_mul, Nat.cast_one, div_one, Nat.cast_mul,
    mul_div_cancel_right₀ _ hone]
  norm_num

/-- The library compares magnitudes where the statement compares numbers. -/
theorem inPositionalRange_iff :
    InPositionalRange w ↔ Binary32.positionalFrom ≤ unitsOfBits w.magnitude ∧
      unitsOfBits w.magnitude < Binary32.positionalBelow := by
  have hone := Binary32.cast_unitsPerOne_pos
  have hfirst : (0x38d1b717 : Word).rational = (Binary32.positionalFrom : ℚ) / unitsPerOne :=
    rational_of_positive (by decide)
  have hlast : (0x5a0e1bca : Word).rational = (Binary32.positionalBelow : ℚ) / unitsPerOne :=
    rational_of_positive (by decide)
  have hrange : (0x38d1b717 : Word).rational ≤ |w.rational| ∧
      |w.rational| < (0x5a0e1bca : Word).rational ↔
      Binary32.positionalFrom ≤ unitsOfBits w.magnitude ∧
        unitsOfBits w.magnitude < Binary32.positionalBelow := by
    rw [hfirst, hlast, abs_rational, div_le_div_iff_of_pos_right hone, div_lt_div_iff_of_pos_right hone,
      Nat.cast_le, Nat.cast_lt]
  rw [← hrange]
  constructor
  · rintro ⟨first, last, hround, hround', h⟩
    rwa [hround.unique rounds_first, hround'.unique rounds_last] at h
  · exact fun h => ⟨_, _, rounds_first, rounds_last, h⟩

/-! ## The text -/

/-- The library's digits, with the sign of the word in front, are the shortest decimal. -/
theorem exists_shortestDecimal (hfin : w.IsFinite) (hrat : w.rational ≠ 0) :
    ∃ k d, ShortestDecimal w k d ∧ |d| = (Decimal.shortest (unitsOfBits w.magnitude)).value ∧
      0 < (Decimal.shortest (unitsOfBits w.magnitude)).significand := by
  have hmag : 0 < w.magnitude := by
    refine Nat.pos_of_ne_zero fun h => hrat ((rational_eq_zero_iff w).2 ?_)
    rw [h]
    rfl
  obtain ⟨k, p, point, heq, hpos, hshort⟩ := Decimal.shortest_spec hmag
  rw [Decimal.pointValue, ← Decimal.value_onGrid] at hshort
  obtain ⟨v, hv⟩ : ∃ v, (Decimal.onGrid p point).value = v := ⟨_, rfl⟩
  have hvpos : 0 < v := by
    rw [← hv]
    exact mul_pos (Nat.cast_pos.2 hpos) (zpow_pos (by norm_num) _)
  have habs : |signFactor w.msb * v| = v := by rw [abs_mul, abs_signFactor, one_mul, abs_of_pos hvpos]
  have hsign : w.msb = decide (signFactor w.msb * v < 0) := by
    cases w.msb <;> simp [signFactor, hvpos, hvpos.le]
  rw [heq, hv]
  rw [hv, ← habs] at hshort
  exact ⟨k, _, shortestDecimal hfin hsign hshort, habs, hpos⟩

theorem signed_signText (negative : Bool) (body : List Char) :
    Signed body negative (signText negative ++ body) := by
  cases negative with
  | true => exact .minus
  | false => exact .plain

/-- A number other than zero is written as the shortest decimal that reads back. -/
theorem shows_nonzero (hfin : w.IsFinite) (hrat : w.rational ≠ 0) :
    ∃ k d body, ShortestDecimal w k d ∧
      Signed body w.msb (Binary32.finite w.msb (unitsOfBits w.magnitude)).text ∧
      (InPositionalRange w → WrittenPositionally body |d|) ∧
      (¬ InPositionalRange w → WrittenScientifically body |d|) := by
  have hunits : unitsOfBits w.magnitude ≠ 0 := mt (rational_eq_zero_iff w).2 hrat
  obtain ⟨k, d, hshort, habs, hpos⟩ := exists_shortestDecimal hfin hrat
  refine ⟨k, d, Binary32.magnitudeText (unitsOfBits w.magnitude), hshort, signed_signText .., ?_, ?_⟩
  · intro hrange
    rw [Binary32.magnitudeText, if_neg hunits, if_pos (inPositionalRange_iff.1 hrange), habs]
    exact Decimal.writtenPositionally _ hpos
  · intro hrange
    rw [Binary32.magnitudeText, if_neg hunits, if_neg (mt inPositionalRange_iff.2 hrange), habs]
    exact Decimal.writtenScientifically _ hpos

/-- Each kind of word is written as the statement asks. -/
theorem shows_text (w : Word) : Shows w (Binary32.ofWord w).text := by
  have hreading := w.reading
  unfold Shows
  generalize w.kind = kind, Binary32.ofWord w = datum at hreading
  cases hreading with
  | nan => rfl
  | infinite => exact signed_signText ..
  | zero => exact signed_signText ..
  | nonzero hfin hrat => exact shows_nonzero hfin hrat

/-- The text of a lane is the eight digits of its bits, with small letters, and in parentheses what its
kind asks for: of a finite word that is not zero the shortest decimal. -/
theorem debug_shows_shortest (w : Word) :
    ∃ digits text, w.debug.toList = ['0', 'x'] ++ digits ++ [' ', '('] ++ text ++ [')'] ∧
      digits.length = 8 ∧ (∀ c ∈ digits, c.isDigit ∨ 'a' ≤ c ∧ c ≤ 'f') ∧
      Text.readHexadecimal? digits = some w.toNat ∧ Shows w text := by
  refine ⟨Text.paddedHexadecimal 8 w.toNat, (Binary32.ofWord w).text, ?_, ?_, ?_, ?_, w.shows_text⟩
  · simp [debug, hex]
  · exact Text.length_paddedHexadecimal (by decide) (w.isLt.trans_eq (by decide))
  · exact fun _ => Text.lowerCase_of_mem_paddedHexadecimal
  · exact Text.readHexadecimal?_paddedHexadecimal 8 w.toNat

example : debug 0x80000001 = "0x80000001 (-1e-45)" := by decide +kernel

end FourLane.Word
