import FourLane.Proofs.Register.Conversions

/-!
# To integers and back

The number of a word, truncated, needs no more bits than the significand has, so it is converted back
without rounding (`significantBits_towardZero`). The exception is the end of the range: what is too
large becomes `2 ^ 31 - 1`, and that is rounded to `2 ^ 31`, which is too large again.

From the other side an integer is rounded to an integer at most `64` away (`exists_rounded`), and of
these only `2 ^ 31` is not in the range.
-/

namespace FourLane

theorem towardZero_intCast (k : Int) : towardZero k = k := by
  unfold towardZero
  split
  · exact Int.floor_intCast k
  · exact Int.ceil_intCast k

theorem towardZero_bounds {v : ℚ} {k : Int} (hk : 0 < k) (h : |v| < k) :
    -k < towardZero v ∧ towardZero v < k := by
  obtain ⟨hlow, hhigh⟩ := abs_lt.1 h
  have hneg : towardZero (-v) < k := towardZero_lt hk (by linarith)
  rw [towardZero_neg] at hneg
  exact ⟨by omega, towardZero_lt hk hhigh⟩

namespace Word

/-! ## Truncated numbers -/

/-- A truncated number has at most 24 significant bits. -/
theorem significantBits_towardZero (w : Word) : significantBits (towardZero w.rational).natAbs ≤ 24 := by
  rcases le_or_gt (2 ^ 23) |w.rational| with hlarge | hsmall
  · obtain ⟨k, hk⟩ := exists_integer_of_le hlarge
    rw [hk, towardZero_intCast]
    exact significantBits_le_of_rational hk
  · have hbounds := towardZero_bounds (k := 2 ^ 23) (by decide) (by exact_mod_cast hsmall)
    exact significantBits_le_of_lt (by omega)

/-- The integer of a word fits into a significand or is the end of the range. -/
theorem significantBits_exactInteger (x : Word) :
    significantBits (exactInteger x).natAbs ≤ 24 ∨ exactInteger x = 2 ^ 31 - 1 := by
  have hend : significantBits (-2 ^ 31 : Int).natAbs ≤ 24 :=
    significantBits_le_iff.2 ⟨1, 31, by decide, by decide⟩
  unfold exactInteger
  cases x.kind with
  | nan =>
    have hzero : significantBits (0 : Int).natAbs ≤ 24 := significantBits_le_of_lt (by decide)
    exact .inl hzero
  | infinite =>
    dsimp only
    split
    · exact .inl hend
    · exact .inr rfl
  | zero | nonzero =>
    dsimp only
    split_ifs
    · exact .inr rfl
    · exact .inl hend
    · exact .inl x.significantBits_towardZero

/-! ## Rounded integers -/

theorem rational_itof {x : Word} (h : significantBits x.toInt.natAbs ≤ 24) :
    (itof x).rational = x.toInt :=
  ((nearest_itof x).rational_eq_iff (x.natAbs_toInt_le.trans (by decide))).2 h

/-- The greatest signed integer is rounded up, out of the range. -/
theorem rational_itof_last {x : Word} (h : x.toInt = 2 ^ 31 - 1) : (itof x).rational = 2 ^ 31 := by
  have hstored : itof x = 0x4f000000 := by
    rw [itof, h]
    decide +kernel
  have hexp : exponentField 0x4f000000 = 158 := by decide
  have hsig : significand 0x4f000000 = 2 ^ 23 := by decide
  have hmsb : (0x4f000000 : Word).msb = false := by decide
  rw [hstored, rational, hexp, hsig, hmsb]
  norm_num

/-- A signed integer is rounded by at most 64, and within the range or to the integer after it. -/
theorem exists_rounded (x : Word) :
    ∃ r : Int, (itof x).rational = r ∧ -2 ^ 31 ≤ r ∧ r ≤ 2 ^ 31 ∧ |r - x.toInt| ≤ 64 ∧
      (r = x.toInt ↔ significantBits x.toInt.natAbs ≤ 24) := by
  have hnear := nearest_itof x
  have hsize := x.natAbs_toInt_le
  obtain ⟨r, hr⟩ := hnear.exists_integer (hsize.trans (by decide))
  have hlow := hnear.le_integer (j := -2 ^ 31) (significantBits_le_iff.2 ⟨1, 31, by decide, by decide⟩)
    (by decide) (by exact_mod_cast (by omega))
  have hhigh := hnear.ge_integer (j := 2 ^ 31) (significantBits_le_iff.2 ⟨1, 31, by decide, by decide⟩)
    (by decide) (by exact_mod_cast (by omega))
  have hclose := hnear.abs_sub_le hsize
  have heq := hnear.rational_eq_iff (hsize.trans (by decide))
  rw [hr] at hlow hhigh hclose heq
  exact ⟨r, hr, by exact_mod_cast hlow, by exact_mod_cast hhigh, by exact_mod_cast hclose,
    by exact_mod_cast heq⟩

theorem exactInteger_of_rational {w : Word} {r : Int} (hfin : w.IsFinite) (h : w.rational = r) :
    exactInteger w = Binary32.clampInteger r := by
  rw [← toInteger_eq_exactInteger, toInteger_of_isFinite hfin, h, towardZero_intCast]

/-- An integer that comes back from a rounded integer, and how far it is from it. -/
theorem exactInteger_itof (x : Word) :
    (exactInteger (itof x) = x.toInt ↔
      significantBits x.toInt.natAbs ≤ 24 ∨ x.toInt = 2 ^ 31 - 1) ∧
    |exactInteger (itof x) - x.toInt| ≤ 64 := by
  obtain ⟨r, hr, hlow, hhigh, hclose, heq⟩ := x.exists_rounded
  have hrange := x.toInt_lt
  rw [exactInteger_of_rational (nearest_itof x).finite hr, ← heq, Binary32.clampInteger]
  have hlast : x.toInt = 2 ^ 31 - 1 → r = 2 ^ 31 := fun h => by
    have hrat := rational_itof_last h
    rw [hr] at hrat
    exact_mod_cast hrat
  rw [abs_le] at hclose ⊢
  refine ⟨⟨?_, ?_⟩, ?_, ?_⟩ <;> omega

/-- `w` holds the number of `x` truncated. Outside the range it holds the end of the range, as the
nearest word; what is truncated to zero is a positive zero. -/
def HoldsTruncated (x w : Word) : Prop :=
  match x.kind with
  | .nan => w = zero false
  | .infinite => w.IsFinite ∧ w.rational = if x.msb then -2 ^ 31 else 2 ^ 31
  | _ =>
    if |x.rational| < 1 then w = zero false
    else w.IsFinite ∧ w.rational =
      if 2 ^ 31 ≤ x.rational then 2 ^ 31
      else if x.rational ≤ -2 ^ 31 then -2 ^ 31
      else towardZero x.rational

/-- The number of a converted integer is the truncated number of the word it came from. -/
theorem holdsTruncated_itof {x y : Word} (h : y.toInt = exactInteger x) : HoldsTruncated x (itof y) := by
  have hfin := (nearest_itof y).finite
  have hzero : y.toInt = 0 → itof y = zero false :=
    ((rounds_itof y).eq_zero_iff (y.natAbs_toInt_le.trans (by decide))).2
  have hlow : y.toInt = -2 ^ 31 → (itof y).rational = -2 ^ 31 := fun hy => by
    have hend : significantBits y.toInt.natAbs ≤ 24 := by
      rw [hy]
      exact significantBits_le_iff.2 ⟨1, 31, by decide, by decide⟩
    rw [rational_itof hend, hy]
    norm_num
  unfold HoldsTruncated
  unfold exactInteger at h
  generalize x.kind = k at h
  cases k with
  | nan => exact hzero h
  | infinite =>
    refine ⟨hfin, ?_⟩
    dsimp only at h
    split_ifs at h ⊢
    · exact hlow h
    · exact rational_itof_last h
  | zero | nonzero =>
    dsimp only at h ⊢
    split
    · rename_i hsmall
      -- Toward zero, less than one is zero, which the clamp does not touch.
      have hbounds := towardZero_bounds (k := 1) (by decide) (by exact_mod_cast hsmall)
      obtain ⟨hleft, hright⟩ := abs_lt.1 hsmall
      rw [if_neg (by linarith), if_neg (by linarith)] at h
      exact hzero (by omega)
    · refine ⟨hfin, ?_⟩
      split_ifs at h ⊢
      · exact rational_itof_last h
      · exact hlow h
      · rw [rational_itof (h ▸ x.significantBits_towardZero), h]

end Word

namespace Register

/-- There and back again changes nothing: what was converted to an integer once comes back from its
number. A number keeps what is in front of its point, unless the clamp takes it; an integer comes
back if it has at most 24 significant bits or is the greatest, and in any case within 64. -/
theorem conversions_retract (a : Register) :
    ftoi (itof (ftoi a)) = ftoi a ∧
    (∀ l, Word.HoldsTruncated (a.get l) ((itof (ftoi a)).get l)) ∧
    ∀ l, (((ftoi (itof a)).get l).toInt = (a.get l).toInt ↔
        significantBits (a.get l).toInt.natAbs ≤ 24 ∨ (a.get l).toInt = 2 ^ 31 - 1) ∧
      |((ftoi (itof a)).get l).toInt - (a.get l).toInt| ≤ 64 := by
  have hftoi : ∀ b : Register, ∀ l, ((ftoi b).get l).toInt = Word.exactInteger (b.get l) := fun b l => by
    rw [toInt_get_ftoi, Word.toInteger_eq_exactInteger]
  refine ⟨Quad.ext_get fun l => BitVec.toInt_inj.1 ?_, fun l => ?_, fun l => ?_⟩
  · rw [hftoi, get_itof, (Word.exactInteger_itof _).1, hftoi]
    exact Word.significantBits_exactInteger _
  · rw [get_itof]
    exact Word.holdsTruncated_itof (hftoi a l)
  · rw [hftoi, get_itof]
    exact Word.exactInteger_itof _

end Register

end FourLane
