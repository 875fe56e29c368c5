import FourLane.Binary32.Arithmetic
import FourLane.Proofs.Binary32.Kinds
import Mathlib.Data.Rat.Floor
import Mathlib.Tactic.Linarith

/-!
# Clamping and truncating

A position on the line of units becomes an integer in three steps: two bounds in binary64, truncation
toward zero, the range of integers. `truncate_clampPosition` says that the bounds do the work of the
range: what they leave is truncated to what the range alone would make of the truncated position.
The bounds are the binary64 numbers nearest to two decimals just outside the range
(`lowerBound_nearest`, `upperBound_nearest`).
-/

namespace FourLane

/-! ## Toward zero -/

/-- The integer next to a number, toward zero. -/
def towardZero (v : ℚ) : Int := if 0 ≤ v then ⌊v⌋ else ⌈v⌉

/-- Division of integers truncates toward zero. -/
theorem towardZero_div (p : Int) {d : Nat} (h : 0 < d) : towardZero ((p : ℚ) / d) = p.tdiv d := by
  have hd : (0 : ℚ) < d := Nat.cast_pos.2 h
  unfold towardZero
  rcases le_or_gt 0 p with hp | hp
  · rw [if_pos (div_nonneg (Int.cast_nonneg hp) hd.le), Rat.floor_intCast_div_natCast,
      Int.tdiv_eq_ediv_of_nonneg hp]
  · obtain ⟨q, rfl⟩ : ∃ q, p = -q := ⟨-p, (neg_neg p).symm⟩
    have hneg : ((-q : Int) : ℚ) / d < 0 := div_neg_of_neg_of_pos (Int.cast_lt_zero.2 hp) hd
    rw [if_neg hneg.not_ge, Int.cast_neg, neg_div, Int.ceil_neg, Rat.floor_intCast_div_natCast,
      Int.neg_tdiv, Int.tdiv_eq_ediv_of_nonneg (by omega)]

section

variable {v : ℚ} {k : Int}

theorem le_towardZero_of_nonneg (hv : 0 ≤ v) (h : k ≤ v) : k ≤ towardZero v := by
  rw [towardZero, if_pos hv]
  exact Int.le_floor.2 h

/-- Truncation does not pass an integer. -/
theorem le_towardZero (hk : 0 ≤ k) (h : k ≤ v) : k ≤ towardZero v :=
  le_towardZero_of_nonneg ((Int.cast_nonneg hk).trans h) h

theorem towardZero_neg (v : ℚ) : towardZero (-v) = -towardZero v := by
  unfold towardZero
  rcases lt_trichotomy v 0 with h | rfl | h
  · rw [if_pos (by linarith), if_neg (by linarith), Int.floor_neg]
  · simp
  · rw [if_neg (by linarith), if_pos h.le, Int.ceil_neg]

theorem towardZero_le_of_nonpos (hv : v ≤ 0) (h : v ≤ k) : towardZero v ≤ k := by
  have hneg : -k ≤ towardZero (-v) := by
    refine le_towardZero_of_nonneg (neg_nonneg.2 hv) ?_
    rw [Int.cast_neg]
    exact neg_le_neg h
  rw [towardZero_neg] at hneg
  exact neg_le_neg_iff.1 hneg

theorem towardZero_lt (hk : 0 < k) (h : v < k) : towardZero v < k := by
  unfold towardZero
  split
  · exact Int.floor_lt.2 h
  · rename_i hneg
    refine lt_of_le_of_lt (Int.ceil_le.2 ?_) hk
    rw [Int.cast_zero]
    exact (not_le.1 hneg).le

end

namespace Binary32

theorem truncate_mono {p q : Int} (h : p ≤ q) : truncate p ≤ truncate q :=
  Int.tdiv_le_tdiv (Int.natCast_pos.2 unitsPerOne_pos) h

theorem lowerBound_le_upperBound : lowerBound ≤ upperBound := by decide

theorem clampPosition_mono {p q : Int} (h : p ≤ q) : clampPosition p ≤ clampPosition q :=
  max_le_max_left _ (min_le_min_right _ h)

/-- The bounds change what is beyond them. -/
theorem clampPosition_eq_iff (p : Int) : clampPosition p = p ↔ lowerBound ≤ p ∧ p ≤ upperBound := by
  have hbounds := lowerBound_le_upperBound
  unfold clampPosition
  omega

/-- Whatever the bounds leave is truncated into the range of integers. -/
theorem truncate_clampPosition_mem (p : Int) :
    -2147483648 ≤ truncate (clampPosition p) ∧ truncate (clampPosition p) ≤ 2147483647 := by
  rw [← truncate_lowerBound, ← truncate_upperBound]
  exact ⟨truncate_mono (le_max_left ..), truncate_mono (max_le lowerBound_le_upperBound (min_le_right ..))⟩

theorem clampInteger_of_mem {k : Int} (h : -2147483648 ≤ k ∧ k ≤ 2147483647) :
    clampInteger k = k := by
  unfold clampInteger
  omega

/-- To clamp a position and truncate it is to truncate and clamp to the range: the bounds of the
library lie within one of the ends of the range. -/
theorem truncate_clampPosition (p : Int) :
    truncate (clampPosition p) = clampInteger (truncate p) := by
  rcases le_total p lowerBound with hlow | hlow
  · have hle := truncate_mono hlow
    rw [truncate_lowerBound] at hle
    have hclamp : clampPosition p = lowerBound :=
      max_eq_left ((min_le_left ..).trans hlow)
    rw [hclamp, truncate_lowerBound, clampInteger]
    omega
  · rcases le_total p upperBound with hhigh | hhigh
    · have hclamp : clampPosition p = p := by
        rw [clampPosition, min_eq_left hhigh, max_eq_right hlow]
      have hmem := truncate_clampPosition_mem p
      rw [hclamp] at hmem ⊢
      rw [clampInteger_of_mem hmem]
    · have hle := truncate_mono hhigh
      rw [truncate_upperBound] at hle
      have hclamp : clampPosition p = upperBound := by
        rw [clampPosition, min_eq_right hhigh, max_eq_right lowerBound_le_upperBound]
      rw [hclamp, truncate_upperBound, clampInteger]
      omega

theorem toInteger_mem (d : Binary32) : -2147483648 ≤ d.toInteger ∧ d.toInteger ≤ 2147483647 := by
  unfold toInteger
  split
  · decide
  · unfold clampInteger
    omega

/-- The last clamp, that of the range, finds nothing left to do. -/
theorem toInteger_of_position {d : Binary32} {p : Int} (h : d.position = some p) :
    d.toInteger = truncate (clampPosition p) := by
  rw [toInteger, h]
  exact clampInteger_of_mem (truncate_clampPosition_mem p)

end Binary32

/-! ## The bounds in binary64 -/

/-- The finite numbers of binary64. -/
def IsBinary64 (d : ℚ) : Prop :=
  ∃ m e : Int, |m| < 2 ^ 53 ∧ -1074 ≤ e ∧ e ≤ 971 ∧ d = m * (2 : ℚ) ^ e

/-- The binary64 number `d` is nearer to `v` than every other one. -/
def NearestBinary64 (v d : ℚ) : Prop :=
  IsBinary64 d ∧ ∀ d', IsBinary64 d' → d' ≠ d → |d - v| < |d' - v|

/-- Every binary32 number is one of binary64. -/
theorem isBinary64_rational {w : Word} (h : w.IsFinite) : IsBinary64 w.rational := by
  have hfields := w.fields_lt
  unfold Word.IsFinite at h
  refine ⟨(if w.msb then -1 else 1) * w.significand, max w.exponentField 1 - 150, ?_, ?_, ?_, ?_⟩
  · have hsig : w.significand < 2 ^ 53 := by
      unfold Word.significand
      split <;> omega
    split <;> rw [abs_lt] <;> constructor <;> push_cast <;> omega
  · omega
  · omega
  · rw [Word.rational]
    push_cast
    rfl

section

variable {m k e s : Int}

/-- Different multiples of steps of `2 ^ s` or more are a step apart. -/
theorem step_le_abs_sub (h : s ≤ e) (hne : (m : ℚ) * 2 ^ e ≠ k * 2 ^ s) :
    (2 : ℚ) ^ s ≤ |(m : ℚ) * 2 ^ e - k * 2 ^ s| := by
  have hstep : (0 : ℚ) < 2 ^ s := zpow_pos two_pos s
  obtain ⟨n, rfl⟩ : ∃ n : ℕ, e = s + n := ⟨(e - s).toNat, by omega⟩
  have hdiff : (m : ℚ) * 2 ^ (s + n : Int) - k * 2 ^ s = ((m * 2 ^ n - k : Int) : ℚ) * 2 ^ s := by
    rw [zpow_add₀ two_ne_zero, zpow_natCast]
    push_cast
    ring
  have hint : m * 2 ^ n - k ≠ 0 := by
    intro h
    rw [h, Int.cast_zero, zero_mul, sub_eq_zero] at hdiff
    exact hne hdiff
  rw [hdiff, abs_mul, abs_of_pos hstep]
  refine le_mul_of_one_le_left hstep.le ?_
  exact_mod_cast Int.one_le_abs hint

/-- With a smaller step a number stays below those that have a full significand. -/
theorem abs_le_of_step_lt (hm : |m| < 2 ^ 53) (h : e < s) :
    |(m : ℚ) * 2 ^ e| ≤ (2 : ℚ) ^ (s + 52) := by
  have hm' : |(m : ℚ)| ≤ 2 ^ 53 := by exact_mod_cast hm.le
  have hpow : (0 : ℚ) < 2 ^ e := zpow_pos two_pos e
  calc |(m : ℚ) * 2 ^ e| = |(m : ℚ)| * 2 ^ e := by rw [abs_mul, abs_of_pos hpow]
    _ ≤ 2 ^ 53 * 2 ^ (s - 1) :=
      mul_le_mul hm' (zpow_le_zpow_right₀ one_le_two (by omega)) hpow.le (by norm_num)
    _ = (2 : ℚ) ^ (53 : Int) * 2 ^ (s - 1) := by norm_num
    _ = 2 ^ (s + 52) := by
      rw [← zpow_add₀ two_ne_zero]
      congr 1
      ring

/-- A number with a full significand is the nearest of all if it is less than half a step away. -/
theorem nearestBinary64_of_half_step {v d : ℚ} (hd : d = k * (2 : ℚ) ^ s) (hk : |k| < 2 ^ 53)
    (hs : -1074 ≤ s) (hs' : s ≤ 971) (hclose : 2 * |d - v| < (2 : ℚ) ^ s)
    (hlarge : (2 : ℚ) ^ (s + 52) + 2 ^ s ≤ |v|) : NearestBinary64 v d := by
  refine ⟨⟨k, s, hk, hs, hs', hd⟩, ?_⟩
  rintro d' ⟨m, e, hm, -, -, rfl⟩ hne
  have hnonneg := abs_nonneg (d - v)
  rcases le_or_gt s e with hle | hlt
  · have hapart : (2 : ℚ) ^ s ≤ |(m : ℚ) * 2 ^ e - d| := by
      rw [hd] at hne ⊢
      exact step_le_abs_sub hle hne
    have htriangle := abs_sub_le ((m : ℚ) * 2 ^ e) v d
    rw [abs_sub_comm v d] at htriangle
    linarith
  · have hbelow := abs_le_of_step_lt hm hlt
    have htriangle := abs_sub_abs_le_abs_sub v ((m : ℚ) * 2 ^ e)
    rw [abs_sub_comm v] at htriangle
    linarith

end

/-- The lower bound is the binary64 number nearest to `-2147483648.999`. -/
theorem lowerBound_nearest :
    NearestBinary64 (-2147483648.999) (Binary32.lowerBound / Binary32.unitsPerOne) := by
  have hd : (Binary32.lowerBound / Binary32.unitsPerOne : ℚ) =
      ((-4503599629465551 : Int) : ℚ) * (2 : ℚ) ^ (-21 : Int) := by
    rw [Binary32.lowerBound, Binary32.unitsPerOne]
    norm_num
  refine nearestBinary64_of_half_step hd (by decide) (by decide) (by decide) ?_ ?_
  · rw [hd]
    norm_num [abs_lt]
  · norm_num [abs_of_neg]

theorem upperBound_nearest :
    NearestBinary64 2147483647.999 (Binary32.upperBound / Binary32.unitsPerOne) := by
  have hd : (Binary32.upperBound / Binary32.unitsPerOne : ℚ) =
      ((9007199254736798 : Int) : ℚ) * (2 : ℚ) ^ (-22 : Int) := by
    rw [Binary32.upperBound, Binary32.unitsPerOne]
    norm_num
  refine nearestBinary64_of_half_step hd (by decide) (by decide) (by decide) ?_ ?_
  · rw [hd]
    norm_num [abs_lt]
  · norm_num

end FourLane
