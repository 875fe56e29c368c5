import FourLane.Proofs.Binary32.Integers
import FourLane.Proofs.Binary32.Monotone
import FourLane.Proofs.Binary32.Truncation
import FourLane.Proofs.Register.Lanes

/-!
# Conversions by the numbers that words denote

A lane becomes the integer that its number has after truncation, kept in the range of a word. The
library clamps between two numbers of binary64 before it truncates. The ends of the range are what
truncation makes of these two, so the order of the two steps cannot be seen.

A lane read as an integer, signed or unsigned, is rounded once. Every such integer is far below the
largest number of a word, so the result is a number; it is the integer itself if and only if its
significant bits fit into a significand. The two readings of a lane differ in its sign bit only, and so
do the results.

Conversions keep order. To integers the order goes through each step: positions are compared, clamped
and truncated, and all three are monotone (`toInteger_mono`). From integers it goes through the one
rounding (`Rounds.fge`), whatever the binades of the two results. Truncation does not pass an integer on
its way to zero: from above zero it stops at every integer below the number, from below at every integer
above it, and the clamp only moves numbers to where the integers of a word end (`le_toInteger`,
`toInteger_le`).
-/

namespace FourLane

/-! ## Numbers become integers -/

namespace Word

/-- The integer that a word is converted to: no integer for a NaN is zero, and what is outside the
range goes to its end. -/
def exactInteger (x : Word) : Int :=
  match x.kind with
  | .nan => 0
  | .infinite => if x.msb then -2 ^ 31 else 2 ^ 31 - 1
  | _ =>
    if 2 ^ 31 ≤ x.rational then 2 ^ 31 - 1
    else if x.rational ≤ -2 ^ 31 then -2 ^ 31
    else towardZero x.rational

/-- Truncating and clamping, by the three parts of the line. -/
theorem clampInteger_towardZero (v : ℚ) :
    Binary32.clampInteger (towardZero v) =
      if 2 ^ 31 ≤ v then 2 ^ 31 - 1 else if v ≤ -2 ^ 31 then -2 ^ 31 else towardZero v := by
  unfold Binary32.clampInteger
  split_ifs with hhigh hlow
  · have := le_towardZero (k := 2147483648) (by decide) (by norm_num; linarith)
    omega
  · have := le_towardZero (v := -v) (k := 2147483648) (by decide) (by norm_num; linarith)
    rw [towardZero_neg] at this
    omega
  · have hlt := towardZero_lt (v := v) (k := 2147483648) (by decide) (by norm_num; linarith)
    have hgt := towardZero_lt (v := -v) (k := 2147483648) (by decide) (by norm_num; linarith)
    rw [towardZero_neg] at hgt
    omega

theorem position_of_isFinite {x : Word} (h : x.IsFinite) :
    (Binary32.ofWord x).position =
      some (Binary32.signedUnits x.msb (Binary32.unitsOfBits x.magnitude)) := by
  rw [ofWord_of_isFinite h, Binary32.position]

theorem toInteger_of_isFinite {x : Word} (h : x.IsFinite) :
    (Binary32.ofWord x).toInteger = Binary32.clampInteger (towardZero x.rational) := by
  rw [Binary32.toInteger_of_position (position_of_isFinite h), Binary32.truncate_clampPosition,
    rational_eq_signedUnits, towardZero_div _ Binary32.unitsPerOne_pos]
  rfl

theorem toInteger_infinity (negative : Bool) :
    (Binary32.infinity negative).toInteger = if negative then -2 ^ 31 else 2 ^ 31 - 1 := by
  cases negative <;> decide +kernel

/-- The library converts every word to its exact integer. -/
theorem toInteger_eq_exactInteger (x : Word) : (Binary32.ofWord x).toInteger = exactInteger x := by
  have hfin : x.IsFinite → _ := toInteger_of_isFinite
  simp only [clampInteger_towardZero] at hfin
  have hx := x.reading
  unfold exactInteger
  generalize x.kind = k, Binary32.ofWord x = d at hx hfin
  cases hx with
  | nan => rfl
  | infinite => exact toInteger_infinity x.msb
  | zero _ h | nonzero h => exact hfin h

end Word

namespace Register

/-- A word holds every integer that a conversion yields. -/
theorem toInt_get_ftoi (a : Register) (l : Lane) :
    ((ftoi a).get l).toInt = (Binary32.ofWord (a.get l)).toInteger := by
  have hlane : (ftoi a).get l = Word.ofInt (Binary32.ofWord (a.get l)).toInteger :=
    get_ftoi a l
  have hmem := (Binary32.ofWord (a.get l)).toInteger_mem
  rw [hlane, Word.ofInt]
  apply BitVec.toInt_ofInt_eq_self (by decide) <;> omega

/-- Conversion saturates; on the way the bounds in binary64, which takes in every number of binary32,
leave a position that is truncated into the range and to what the range would make of it. -/
theorem ftoi_saturates (a : Register) :
    (∀ l, ((ftoi a).get l).toInt = Word.exactInteger (a.get l)) ∧ ftou a = ftoi a ∧
    NearestBinary64 (-2147483648.999) (Binary32.lowerBound / Binary32.unitsPerOne) ∧
    NearestBinary64 2147483647.999 (Binary32.upperBound / Binary32.unitsPerOne) ∧
    ∀ l p, (Binary32.ofWord (a.get l)).position = some p →
      ((a.get l).IsFinite → (a.get l).rational = p / Binary32.unitsPerOne ∧
        IsBinary64 (a.get l).rational) ∧
      ((ftoi a).get l).toInt = Binary32.truncate (Binary32.clampPosition p) ∧
      -2 ^ 31 ≤ Binary32.truncate (Binary32.clampPosition p) ∧
      Binary32.truncate (Binary32.clampPosition p) < 2 ^ 31 ∧
      Binary32.truncate (Binary32.clampPosition p) =
        Binary32.clampInteger (Binary32.truncate p) := by
  refine ⟨fun l => ?_, rfl, lowerBound_nearest, upperBound_nearest, fun l p hp => ?_⟩
  · rw [toInt_get_ftoi, Word.toInteger_eq_exactInteger]
  · have hmem := Binary32.truncate_clampPosition_mem p
    refine ⟨fun hfin => ⟨?_, isBinary64_rational hfin⟩, ?_, by omega, by omega,
      Binary32.truncate_clampPosition p⟩
    · rw [Word.position_of_isFinite hfin] at hp
      rw [Word.rational_eq_signedUnits, Option.some.inj hp]
    · rw [toInt_get_ftoi, Binary32.toInteger_of_position hp]

/-- The least number past the range comes out as the end of the range. -/
theorem ftoi_saturates_past_range :
    (Binary32.ofWord 0x4f000000).position = some (2147483648 * (Binary32.unitsPerOne : Int)) ∧
    ((ftoi (Quad.splat 0x4f000000)).get .x).toInt = 2 ^ 31 - 1 := by
  have hposition : (Binary32.ofWord 0x4f000000).position =
      some (2147483648 * (Binary32.unitsPerOne : Int)) := by decide +kernel
  obtain ⟨-, -, -, -, hpath⟩ := ftoi_saturates (Quad.splat 0x4f000000)
  obtain ⟨-, hstored, -⟩ := hpath .x _ hposition
  refine ⟨hposition, hstored.trans ?_⟩
  decide +kernel

end Register

/-! ## Integers become the nearest numbers -/

namespace Word

theorem natAbs_toInt_le (x : Word) : x.toInt.natAbs ≤ 2 ^ 31 := by
  have hlow := x.le_toInt
  have hhigh := x.toInt_lt
  omega

theorem rounds_itof (x : Word) : Rounds (x.toInt < 0) x.toInt (itof x) := rounds_ofInt x.toInt

theorem nearest_itof (x : Word) : Nearest x.toInt (itof x) :=
  (rounds_itof x).nearest_integer (x.natAbs_toInt_le.trans (by decide))

/-- The unsigned reading is a signed integer that is not negative. -/
theorem rounds_utof (x : Word) : Rounds ((x.toNat : Int) < 0) (x.toNat : Int) (utof x) :=
  rounds_ofInt x.toNat

theorem nearest_utof (x : Word) : Nearest (x.toNat : Int) (utof x) :=
  (rounds_utof x).nearest_integer x.isLt.le

theorem Rounds.iff {negative : Bool} {v : ℚ} {x : Word} (h : Rounds negative v x) (w : Word) :
    Rounds negative v w ↔ x = w :=
  Exact.IsStoredAs.iff (e := .number negative v) h w

/-- The two readings of a word become the same number only where they are the same. -/
theorem itof_eq_utof_iff (x : Word) : itof x = utof x ↔ x.msb = false := by
  constructor
  · intro h
    have hsign := (rounds_itof x).sign
    rw [h, (rounds_utof x).sign] at hsign
    rw [BitVec.msb_eq_toInt, ← hsign]
    exact decide_eq_false (Int.natCast_nonneg _).not_gt
  · intro h
    rw [itof, utof, BitVec.toInt_eq_toNat_of_msb h]

end Word

namespace Register

variable (a : Register) (l : Lane) (w : Word)

/-- A lane of either conversion holds the nearest number, with ties to even; `Word.Nearest` includes
that it is finite. -/
theorem integers_correctly_rounded :
    (Word.Rounds ((a.get l).toInt < 0) (a.get l).toInt w ↔ (itof a).get l = w) ∧
    (Word.Rounds false (a.get l).toNat w ↔ (utof a).get l = w) ∧
    Word.Nearest (a.get l).toInt ((itof a).get l) ∧ Word.Nearest (a.get l).toNat ((utof a).get l) ∧
    ((itof a).get l = Word.zero false ↔ a.get l = 0) ∧
    ((utof a).get l = Word.zero false ↔ a.get l = 0) ∧
    (((itof a).get l).rational = (a.get l).toInt ↔ significantBits (a.get l).toInt.natAbs ≤ 24) ∧
    (((utof a).get l).rational = (a.get l).toNat ↔ significantBits (a.get l).toNat ≤ 24) ∧
    ((itof a).get l = (utof a).get l ↔ (a.get l).msb = false) := by
  have hsigned := Word.rounds_itof (a.get l)
  have hunsigned := Word.rounds_utof (a.get l)
  have hsize : (a.get l).toInt.natAbs ≤ 2 ^ 32 := (a.get l).natAbs_toInt_le.trans (by decide)
  have hsize' : ((a.get l).toNat : Int).natAbs ≤ 2 ^ 32 := (a.get l).isLt.le
  have hpositive : decide (((a.get l).toNat : Int) < 0) = false :=
    decide_eq_false (Int.natCast_nonneg _).not_gt
  rw [get_itof, get_utof]
  refine ⟨hsigned.iff w, ?_, Word.nearest_itof _, ?_, ?_, ?_, (Word.nearest_itof _).rational_eq_iff hsize,
    ?_, Word.itof_eq_utof_iff _⟩
  · have h := hunsigned.iff w
    rwa [hpositive, Int.cast_natCast] at h
  · exact Int.cast_natCast (R := ℚ) (a.get l).toNat ▸ Word.nearest_utof (a.get l)
  · rw [hsigned.eq_zero_iff hsize, ← BitVec.toInt_inj]
    rfl
  · rw [hunsigned.eq_zero_iff hsize', ← BitVec.toNat_inj, Int.natCast_eq_zero]
    rfl
  · have h := (Word.nearest_utof (a.get l)).rational_eq_iff hsize'
    rwa [Int.cast_natCast] at h

end Register

namespace Word

/-! ## Order on the way to integers -/

theorem toInteger_mono {x y : Word} (h : fge x y = true) :
    (Binary32.ofWord y).toInteger ≤ (Binary32.ofWord x).toInteger := by
  unfold fge Binary32.ge at h
  split at h
  · rename_i p q hp hq
    rw [Binary32.toInteger_of_position hp, Binary32.toInteger_of_position hq]
    exact Binary32.truncate_mono (Binary32.clampPosition_mono (of_decide_eq_true h))
  · cases h

section

variable {x : Word} {v : EReal} {k : Int}

/-- A number above an integer does not pass it on the way down to zero. -/
theorem le_toInteger (hx : x.value = some v) (hk : k < 2 ^ 31) (hv : 0 ≤ v)
    (h : ((k : ℝ) : EReal) ≤ v) : k ≤ (Binary32.ofWord x).toInteger := by
  cases numbered hx with
  | infinite hkind _ _ hend =>
    cases hsign : x.msb with
    | true =>
      rw [hend, if_pos hsign] at hv
      exact absurd hv EReal.bot_lt_zero.not_ge
    | false =>
      rw [toInteger_eq_exactInteger, exactInteger, hkind, hsign]
      exact Int.le_sub_one_of_lt hk
  | zero _ hfin | nonzero _ hfin =>
    obtain rfl := eq_rational_of_value hx hfin
    have hle : k ≤ towardZero x.rational :=
      le_towardZero_of_nonneg (by exact_mod_cast hv) (by exact_mod_cast h)
    rw [toInteger_of_isFinite hfin, Binary32.clampInteger]
    omega

/-- A number below an integer does not pass it on the way up to zero. -/
theorem toInteger_le (hx : x.value = some v) (hk : -2 ^ 31 ≤ k) (hv : v ≤ 0)
    (h : v ≤ ((k : ℝ) : EReal)) : (Binary32.ofWord x).toInteger ≤ k := by
  cases numbered hx with
  | infinite hkind _ _ hend =>
    cases hsign : x.msb with
    | true =>
      rw [toInteger_eq_exactInteger, exactInteger, hkind, hsign]
      exact hk
    | false =>
      rw [hend, hsign] at hv
      exact absurd hv EReal.zero_lt_top.not_ge
  | zero _ hfin | nonzero _ hfin =>
    obtain rfl := eq_rational_of_value hx hfin
    have hle : towardZero x.rational ≤ k :=
      towardZero_le_of_nonpos (by exact_mod_cast hv) (by exact_mod_cast h)
    rw [toInteger_of_isFinite hfin, Binary32.clampInteger]
    omega

end

/-! ## Order on the way from integers -/

theorem isSignOf_intCast (k : Int) : IsSignOf (k < 0) k := by
  simpa only [Int.cast_lt_zero] using isSignOf_decide (k : ℚ)

/-- Both readings of a word as an integer are rounded by one function. -/
theorem fge_ofInt {j k : Int} (h : j ≤ k) :
    fge (Binary32.ofInt k).toWord (Binary32.ofInt j).toWord = true :=
  (rounds_ofInt j).fge (isSignOf_intCast j) (isSignOf_intCast k) (rounds_ofInt k) (by exact_mod_cast h)

end Word

namespace Register

/-- Conversions keep the order of two lanes as the comparisons of either reading decide it, and no
integer of a word lies between a number and what it is truncated to. -/
theorem conversions_keep_order (a b : Register) (l : Lane) :
    ((compare .ge a b).get l = Word.allOnes →
      (compare .ige (ftoi a) (ftoi b)).get l = Word.allOnes) ∧
    ((compare .ige a b).get l = Word.allOnes →
      (compare .ge (itof a) (itof b)).get l = Word.allOnes) ∧
    ((b.get l).toNat ≤ (a.get l).toNat → (compare .ge (utof a) (utof b)).get l = Word.allOnes) ∧
    ∀ (n : Word) (v : EReal), (a.get l).value = some v →
      (((n.toInt : ℝ) : EReal) ≤ v → 0 ≤ v → n.toInt ≤ ((ftoi a).get l).toInt) ∧
      (v ≤ ((n.toInt : ℝ) : EReal) → v ≤ 0 → ((ftoi a).get l).toInt ≤ n.toInt) := by
  simp only [compare_eq_allOnes_iff, Comparison.holds, decide_eq_true_iff]
  refine ⟨fun h => ?_, fun h => ?_, fun h => ?_, fun n v hx => ⟨fun h hv => ?_, fun h hv => ?_⟩⟩
  · rw [toInt_get_ftoi, toInt_get_ftoi]
    exact Word.toInteger_mono h
  · rw [get_itof, get_itof]
    exact Word.fge_ofInt h
  · rw [get_utof, get_utof]
    exact Word.fge_ofInt (Int.ofNat_le.2 h)
  · rw [toInt_get_ftoi]
    exact Word.le_toInteger hx n.toInt_lt hv h
  · rw [toInt_get_ftoi]
    exact Word.toInteger_le hx n.le_toInt hv h

/-- `2 ^ 31`, past the range, over `1.5`, and `-1.5` beside it. -/
theorem conversions_keep_order_past_range :
    let a : Register := ⟨0x4f000000, 0xbfc00000, 0, 0⟩
    let b : Register := Quad.splat 0x3fc00000
    (compare .ige (ftoi a) (ftoi b)).get .x = Word.allOnes ∧
    (compare .ge (itof a) (itof b)).get .x = Word.allOnes ∧
    (compare .ge (utof a) (utof b)).get .x = Word.allOnes ∧
    2 ^ 31 - 1 ≤ ((ftoi a).get .x).toInt ∧ ((ftoi a).get .y).toInt ≤ -1 := by
  intro a b
  have hx : (a.get .x).value = _ := Word.value_of_isFinite (by decide)
  have hy : (a.get .y).value = _ := Word.value_of_isFinite (by decide)
  have hpast : (a.get .x).rational = 2 ^ 31 := by decide +kernel
  have hbelow : (a.get .y).rational = -3 / 2 := by decide +kernel
  rw [hpast] at hx
  rw [hbelow] at hy
  obtain ⟨hftoi, hitof, hutof, hstop⟩ := conversions_keep_order a b .x
  obtain ⟨-, -, -, hstop'⟩ := conversions_keep_order a b .y
  refine ⟨hftoi (by decide +kernel), hitof (by decide), hutof (by decide),
    (hstop 0x7fffffff _ hx).1 ?_ ?_, (hstop' 0xffffffff _ hy).2 ?_ ?_⟩
  · rw [EReal.coe_le_coe_iff, show (0x7fffffff : Word).toInt = 2 ^ 31 - 1 from rfl]
    norm_num
  · exact_mod_cast (by norm_num : (0 : ℚ) ≤ 2 ^ 31)
  · rw [EReal.coe_le_coe_iff, show (0xffffffff : Word).toInt = -1 from rfl]
    norm_num
  · exact_mod_cast (by norm_num : (-3 / 2 : ℚ) ≤ 0)

end Register

end FourLane
