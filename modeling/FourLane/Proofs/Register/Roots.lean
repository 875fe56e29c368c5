import FourLane.Proofs.Binary32.Root
import FourLane.Proofs.Register.Arithmetic
import FourLane.Proofs.Register.Unfused

/-!
# Square roots and their inverses

A square root is rounded once: the exact root of a positive number is irrational or far from every
midpoint, so `RoundsRoot` says by the midpoints which word it is. One over the root is a quotient, `1`
over the stored root, so it is rounded twice. Both are normal words wherever the operand is a positive
number, and not a number for the same operands.
-/

namespace FourLane

namespace Word

/-! ## What is stored -/

/-- `r` is nearer to the root of `x` than every other number of a word. -/
def NearestRoot (x : ℚ) (r : Word) : Prop :=
  ∀ u : Word, u.IsFinite → u.rational ≠ r.rational →
    |(r.rational : ℝ) - √x| < |(u.rational : ℝ) - √x|

/-- `r` holds the square root of `x`. Zeros are their own roots, with their sign. -/
def HoldsRoot (x r : Word) : Prop :=
  match x.kind with
  | .nan => r = quietNaN
  | .infinite => r = if x.msb then quietNaN else x
  | .zero => r = x
  | .nonzero => if x.msb then r = quietNaN else RoundsRoot x.rational r ∧ NearestRoot x.rational r

/-- `w` holds one over `r`, where `r` holds the square root of `x`. -/
def HoldsInverseRoot (x r w : Word) : Prop :=
  match x.kind with
  | .nan => w = quietNaN
  | .infinite => w = if x.msb then quietNaN else zero false
  | .zero => w = infinity x.msb
  | .nonzero => if x.msb then w = quietNaN else w.IsNormal ∧ Rounds false (1 / r.rational) w

theorem HoldsRoot.unique {x r r' : Word} (h : HoldsRoot x r) (h' : HoldsRoot x r') : r = r' := by
  unfold HoldsRoot at h h'
  generalize x.kind = k at h h'
  cases k with
  | nan | infinite | zero => exact Eq.trans h (Eq.symm h')
  | nonzero =>
    dsimp only at h h'
    split at h
    · rename_i hsign
      rw [if_pos hsign] at h'
      exact h.trans h'.symm
    · rename_i hsign
      rw [if_neg hsign] at h'
      exact h.1.unique h'.1

/-- The library stores the root of every word. -/
theorem holdsRoot_fsqrt (x : Word) : HoldsRoot x (fsqrt x) := by
  -- The rounding itself is that of a positive word; the other words are special.
  have hpositive := roundsRoot_fsqrt (x := x)
  have hx := x.reading
  unfold HoldsRoot fsqrt at *
  generalize x.kind = k, Binary32.ofWord x = d at hx hpositive
  cases hx with
  | nan => rfl
  | infinite hinf =>
    change (if x.msb then _ else _ : Binary32).toWord = if x.msb then quietNaN else x
    split
    · exact Binary32.toWord_quietNaN
    · rename_i hsign
      rw [hinf, Bool.eq_false_iff.2 hsign]
      exact toWord_infinity false
  | zero hzero => exact (toWord_zero x.msb).trans hzero.symm
  | nonzero hfin hrat =>
    dsimp only
    split
    · rename_i hsign
      dsimp only [Binary32.sqrt]
      rw [if_neg (mt x.rational_eq_zero_iff.2 hrat), if_pos hsign]
      exact Binary32.toWord_quietNaN
    · rename_i hsign
      have h := hpositive hfin (Bool.eq_false_iff.2 hsign) hrat
      exact ⟨h, h.nearest⟩

/-! ## One over the root -/

theorem fdiv_fone_quietNaN : fdiv fone quietNaN = quietNaN := by decide

theorem fdiv_fone_infinity (negative : Bool) : fdiv fone (infinity negative) = zero negative := by
  cases negative <;> decide

theorem fdiv_fone_zero (negative : Bool) : fdiv fone (zero negative) = infinity negative := by
  cases negative <;> decide

theorem rounds_fdiv_fone {r : Word} (hfin : r.IsFinite) (hrat : r.rational ≠ 0) :
    Rounds r.msb (1 / r.rational) (fdiv fone r) := by
  have hone : fone.kind = .nonzero :=
    kind_of_rational_ne_zero (by decide) (rational_fone.trans_ne one_ne_zero)
  have hsign : fone.msb = false := by decide
  have hquot := exactQuotient_stored fone r
  rwa [exactQuotient, hone, kind_of_rational_ne_zero hfin hrat, rational_fone, hsign,
    Bool.false_xor] at hquot

theorem isNormal_one_div {r w : Word} (h : Rounds false (1 / r.rational) w)
    (hlow : (2 : ℚ) ^ (-75 : ℤ) ≤ r.rational) (hhigh : r.rational ≤ 2 ^ (64 : ℤ)) : w.IsNormal := by
  have hpos : 0 < r.rational := (by positivity : (0 : ℚ) < 2 ^ (-75 : ℤ)).trans_le hlow
  refine isNormal_of_rounds h ?_ ?_
  · rw [le_div_iff₀ hpos]
    calc (2 : ℚ) ^ (-126 : ℤ) * r.rational ≤ 2 ^ (-126 : ℤ) * 2 ^ (64 : ℤ) := by gcongr
      _ ≤ 1 := by norm_num
  · rw [div_lt_iff₀ hpos]
    calc (1 : ℚ) < (2 ^ 128 - 2 ^ 103) * 2 ^ (-75 : ℤ) := by norm_num
      _ ≤ (2 ^ 128 - 2 ^ 103) * r.rational := by gcongr

/-- The library stores one over the stored root. -/
theorem holdsInverseRoot_frsqrt (x : Word) : HoldsInverseRoot x (fsqrt x) (frsqrt x) := by
  have hroot := holdsRoot_fsqrt x
  have hmem := rational_fsqrt_mem (x := x)
  have hx := x.reading
  unfold HoldsRoot at hroot
  unfold HoldsInverseRoot frsqrt
  generalize x.kind = k, Binary32.ofWord x = d at hx hroot
  cases hx with
  | nan =>
    rw [show fsqrt x = quietNaN from hroot]
    exact fdiv_fone_quietNaN
  | infinite hinf =>
    dsimp only at hroot ⊢
    rw [hroot]
    split
    · exact fdiv_fone_quietNaN
    · rename_i hsign
      rw [hinf, Bool.eq_false_iff.2 hsign]
      exact fdiv_fone_infinity false
  | zero hzero =>
    rw [show fsqrt x = x from hroot]
    exact (congrArg (fdiv fone) hzero).trans (fdiv_fone_zero x.msb)
  | nonzero hfin hrat =>
    dsimp only at hroot ⊢
    split
    · rename_i hsign
      rw [if_pos hsign] at hroot
      rw [hroot]
      exact fdiv_fone_quietNaN
    · rename_i hsign
      rw [if_neg hsign] at hroot
      -- A root is far from both ends of the range, so one over it is no subnormal and no infinity.
      obtain ⟨hlow, hhigh⟩ := hmem hfin (Bool.eq_false_iff.2 hsign) hrat
      have hpos : 0 < (fsqrt x).rational := (by positivity : (0 : ℚ) < 2 ^ (-75 : ℤ)).trans_le hlow
      have hrounds := rounds_fdiv_fone hroot.1.normal.2 hpos.ne'
      rw [hroot.1.sign] at hrounds
      exact ⟨isNormal_one_div hrounds hlow hhigh, hrounds⟩

/-! ## Where there is no root -/

/-- The root and its inverse are not numbers for the same words. -/
theorem kind_eq_nan_iff {x r w : Word} (hr : HoldsRoot x r) (hw : HoldsInverseRoot x r w) :
    w.kind = .nan ↔ r.kind = .nan := by
  unfold HoldsRoot at hr
  unfold HoldsInverseRoot at hw
  cases hk : x.kind with
  | nan =>
    rw [hk] at hr hw
    rw [show w = quietNaN from hw, show r = quietNaN from hr]
  | infinite =>
    rw [hk] at hr hw
    dsimp only at hr hw
    split at hw
    · rename_i hsign
      rw [if_pos hsign] at hr
      rw [hw, hr]
    · rename_i hsign
      rw [if_neg hsign] at hr
      rw [hw, hr, hk, iff_false_right (by decide)]
      exact kind_ne_nan_of_isFinite (by decide)
  | zero =>
    rw [hk] at hr hw
    rw [show w = infinity x.msb from hw, show r = x from hr, hk, kind_infinity,
      iff_false_left (by decide)]
    decide
  | nonzero =>
    rw [hk] at hr hw
    dsimp only at hr hw
    split at hw
    · rename_i hsign
      rw [if_pos hsign] at hr
      rw [hw, hr]
    · rename_i hsign
      rw [if_neg hsign] at hr
      rw [iff_false_left (kind_ne_nan_of_isFinite hw.1.2)]
      exact kind_ne_nan_of_isFinite hr.1.normal.2

end Word

namespace Register

variable (a : Register) (l : Lane)

/-- Each lane of a root holds the root of the lane, rounded correctly, and each lane of an inverse
root one over that root, rounded once more. The second is a NaN exactly if the first is. -/
theorem roots_correctly_rounded (w : Word) :
    (Word.HoldsRoot (a.get l) w ↔ (sqrt false a).get l = w) ∧
    ((Word.exactQuotient Word.fone ((sqrt false a).get l)).IsStoredAs w ↔ (rsq false a).get l = w) ∧
    Word.HoldsInverseRoot (a.get l) ((sqrt false a).get l) ((rsq false a).get l) ∧
    (((rsq false a).get l).kind = .nan ↔ ((sqrt false a).get l).kind = .nan) := by
  have hroot := Word.holdsRoot_fsqrt (a.get l)
  have hinverse := Word.holdsInverseRoot_frsqrt (a.get l)
  rw [get_sqrt, get_rsq, Word.store_false, Word.store_false]
  refine ⟨⟨hroot.unique, ?_⟩, (Word.exactQuotient_stored _ _).iff w, hinverse,
    Word.kind_eq_nan_iff hroot hinverse⟩
  rintro rfl
  exact hroot

end Register

end FourLane
