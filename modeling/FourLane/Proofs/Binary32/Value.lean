import FourLane.Binary32.Arithmetic
import Mathlib.Data.EReal.Basic
import Mathlib.Data.Rat.Cast.Order
import Mathlib.Tactic.FieldSimp
import Mathlib.Tactic.NormNum
import Mathlib.Tactic.Ring

/-!
# The number that a word denotes

`Word.value` is read off the fields of a word alone: sign, exponent and fraction give a rational
number, an infinity or nothing. It shares no definition with `Binary32.ofWord`, so a statement about
values does not depend on how the library counts units.

`stands_of_value` ties the two together: the position of a word on the line of units is its value,
scaled. Comparing positions is then comparing values (`flt_iff_value`, `fge_iff_value`,
`fne_iff_value`), and a word without a value is left out of the order (`compare_of_nan`).
-/

namespace FourLane

namespace Word

/-! ## Fields -/

/-- The eight bits of the exponent. -/
def exponentField (w : Word) : Nat := w.toNat / 2 ^ 23 % 2 ^ 8

/-- The bits below the exponent. -/
def fractionField (w : Word) : Nat := w.toNat % 2 ^ 23

/-- The fraction, under a leading one unless the exponent field is zero. -/
def significand (w : Word) : Nat :=
  if w.exponentField = 0 then w.fractionField else 2 ^ 23 + w.fractionField

/-- The number of a word whose exponent field is not all ones. Exponent field zero has the spacing of
exponent field one. -/
def rational (w : Word) : ℚ :=
  (if w.msb then -1 else 1) * w.significand * (2 : ℚ) ^ ((max w.exponentField 1 : ℤ) - 150)

/-- The number that a word denotes on the extended line; a NaN denotes none. -/
noncomputable def value (w : Word) : Option EReal :=
  if w.exponentField < 255 then some ((w.rational : ℝ) : EReal)
  else if w.fractionField = 0 then some (if w.msb then ⊥ else ⊤)
  else none

theorem fields_lt (w : Word) : w.exponentField < 256 ∧ w.fractionField < 2 ^ 23 :=
  ⟨Nat.mod_lt _ (by decide), Nat.mod_lt _ (by decide)⟩

theorem rational_fone : fone.rational = 1 := by
  have hexp : exponentField fone = 127 := by decide
  have hsig : significand fone = 2 ^ 23 := by decide
  have hmsb : fone.msb = false := by decide
  rw [rational, hexp, hsig, hmsb]
  norm_num

theorem value_fone : fone.value = some 1 := by
  have hexp : exponentField fone = 127 := by decide
  simp [value, hexp, rational_fone]

/-- Below the sign bit stand the two fields. -/
theorem toNat_mod_signWeight (w : Word) :
    w.toNat % Binary32.signWeight = w.exponentField * 2 ^ 23 + w.fractionField := by
  simp only [Binary32.signWeight, exponentField, fractionField]
  omega

end Word

namespace Binary32

/-! ## The datum of a word, by its fields -/

/-- A magnitude in units, from the fields: a normal number has a leading one. -/
theorem unitsOfBits_fields {e f : Nat} (hf : f < 2 ^ 23) :
    unitsOfBits (e * 2 ^ 23 + f) = (if e = 0 then f else 2 ^ 23 + f) * 2 ^ (e - 1) := by
  have hquot : (e * 2 ^ 23 + f) / 2 ^ 23 = e := by omega
  simp only [unitsOfBits, fractionBits, hquot]
  congr 1
  split <;> omega

/-- A magnitude is a significand, doubled some times. -/
theorem exists_significand (b : Nat) : ∃ f d, unitsOfBits b = f * 2 ^ d ∧ f < 2 ^ 24 := by
  have hfraction : b % 2 ^ 23 < 2 ^ 23 := Nat.mod_lt _ (by decide)
  have hunits := unitsOfBits_fields (e := b / 2 ^ 23) hfraction
  rw [Nat.div_add_mod'] at hunits
  refine ⟨_, _, hunits, ?_⟩
  split <;> omega

/-- A word with a small exponent is read as its significand, shifted by the exponent. -/
theorem ofWord_of_finite {w : Word} (h : w.exponentField < 255) :
    ofWord w = .finite w.msb (w.significand * 2 ^ (w.exponentField - 1)) := by
  obtain ⟨-, hf⟩ := w.fields_lt
  have hbits : w.exponentField * 2 ^ 23 + w.fractionField < infinityBits := by
    unfold infinityBits
    omega
  simp only [ofWord, w.toNat_mod_signWeight, if_pos hbits, unitsOfBits_fields hf, Word.significand]

theorem ofWord_of_infinite {w : Word} (h : w.exponentField = 255) (hf : w.fractionField = 0) :
    ofWord w = .infinity w.msb := by
  simp only [ofWord, w.toNat_mod_signWeight, h, hf]
  rfl

theorem ofWord_of_nan {w : Word} (h : w.exponentField = 255) (hf : w.fractionField ≠ 0) :
    ofWord w = .nan w.msb w.fractionField := by
  have hbits : w.exponentField * 2 ^ 23 + w.fractionField = infinityBits + w.fractionField := by
    rw [h]
    rfl
  simp only [ofWord, w.toNat_mod_signWeight, hbits]
  rw [if_neg (by omega), if_neg (by omega), Nat.add_sub_cancel_left]

/-! ## Positions -/

/-- The position `p` is the place of the number `v` on the line of units. -/
inductive Stands : Int → EReal → Prop
  | number {p : Int} (hlow : -(overflowUnits : Int) < p) (hhigh : p < overflowUnits) :
      Stands p ((p : ℝ) / (unitsPerOne : ℝ) : ℝ)
  | top : Stands overflowUnits ⊤
  | bot : Stands (-(overflowUnits : Int)) ⊥

theorem unitsPerOne_pos : 0 < unitsPerOne := Nat.two_pow_pos _

theorem cast_unitsPerOne_pos : (0 : ℚ) < unitsPerOne := Nat.cast_pos.2 unitsPerOne_pos

theorem unitsPerOne_lt_overflowUnits : unitsPerOne < overflowUnits := by decide +kernel

/-- Positions are ordered as the numbers that stand there. -/
theorem Stands.lt_iff {p q : Int} {u v : EReal} (hp : Stands p u) (hq : Stands q v) :
    p < q ↔ u < v := by
  have hone : (0 : ℝ) < unitsPerOne := Nat.cast_pos.2 unitsPerOne_pos
  have hover := unitsPerOne_pos.trans unitsPerOne_lt_overflowUnits
  -- Positions of numbers are strictly between those of the infinities.
  cases hp with
  | number hlow hhigh =>
    cases hq with
    | number =>
      rw [EReal.coe_lt_coe_iff, div_lt_div_iff_of_pos_right hone, Int.cast_lt]
    | top => simpa using hhigh
    | bot => simpa using hlow.le
  | top =>
    cases hq with
    | number _ hq => simpa using hq.le
    | top => simp
    | bot =>
      simp only [not_top_lt, iff_false]
      omega
  | bot =>
    cases hq with
    | number hq => simpa using hq
    | top =>
      simp only [bot_lt_top, iff_true]
      omega
    | bot => simp

/-- Equal positions mean equal numbers. -/
theorem Stands.eq_iff {p q : Int} {u v : EReal} (hp : Stands p u) (hq : Stands q v) :
    p = q ↔ u = v := by
  have hlt := hp.lt_iff hq
  have hgt := hq.lt_iff hp
  constructor
  · rintro rfl
    exact le_antisymm (not_lt.1 (mt hgt.2 (lt_irrefl p))) (not_lt.1 (mt hlt.2 (lt_irrefl p)))
  · rintro rfl
    exact le_antisymm (not_lt.1 (mt hgt.1 (lt_irrefl u))) (not_lt.1 (mt hlt.1 (lt_irrefl u)))

theorem rational_eq (w : Word) :
    w.rational =
      (signedUnits w.msb (w.significand * 2 ^ (w.exponentField - 1)) : ℚ) / (unitsPerOne : ℚ) := by
  have hexp : (max w.exponentField 1 : ℤ) - 150 = (w.exponentField - 1 : ℕ) - (149 : ℕ) := by omega
  have hone : (unitsPerOne : ℚ) = 2 ^ (149 : ℕ) := by
    unfold unitsPerOne
    push_cast
    rfl
  rw [Word.rational, hexp, zpow_sub₀ two_ne_zero, zpow_natCast, zpow_natCast, hone]
  unfold signedUnits
  split <;> push_cast <;> ring

/-- A finite word is below the place of the infinity. -/
theorem units_lt_overflowUnits {w : Word} (h : w.exponentField < 255) :
    w.significand * 2 ^ (w.exponentField - 1) < overflowUnits := by
  have hsig : w.significand < 2 ^ 24 := by
    have := w.fields_lt
    unfold Word.significand
    split <;> omega
  calc w.significand * 2 ^ (w.exponentField - 1)
      < 2 ^ 24 * 2 ^ (w.exponentField - 1) := Nat.mul_lt_mul_of_pos_right hsig (Nat.two_pow_pos _)
    _ ≤ 2 ^ 24 * 2 ^ 253 := Nat.mul_le_mul_left _ (Nat.pow_le_pow_right (by decide) (by omega))
    _ = overflowUnits := by decide +kernel

/-- A word whose value is `v` has the position where `v` stands. -/
theorem stands_of_value {w : Word} {v : EReal} (h : w.value = some v) :
    ∃ p, (ofWord w).position = some p ∧ Stands p v := by
  have he := w.fields_lt.1
  unfold Word.value at h
  split at h
  · rename_i hfin
    obtain rfl := Option.some.inj h
    rw [ofWord_of_finite hfin]
    refine ⟨_, rfl, ?_⟩
    have hunits := units_lt_overflowUnits hfin
    rw [rational_eq]
    push_cast
    refine Stands.number ?_ ?_ <;> unfold signedUnits <;> split <;> omega
  · rename_i hfin
    split at h
    · rename_i hfrac
      obtain rfl := Option.some.inj h
      rw [ofWord_of_infinite (by omega) hfrac]
      refine ⟨_, rfl, ?_⟩
      unfold signedUnits
      split
      · exact .bot
      · exact .top
    · cases h

theorem isNaN_iff_value (w : Word) : w.isNaN = true ↔ w.value = none := by
  have he := w.fields_lt.1
  unfold Word.isNaN Word.value
  split
  · rename_i hfin
    simp [ofWord_of_finite hfin, isNaN]
  · split
    · rename_i hfin hfrac
      simp [ofWord_of_infinite (by omega) hfrac, isNaN]
    · rename_i hfin hfrac
      simp [ofWord_of_nan (by omega) hfrac, isNaN]

theorem position_of_nan {w : Word} (h : w.value = none) : (ofWord w).position = none := by
  have hnan : (ofWord w).isNaN = true := (isNaN_iff_value w).2 h
  cases hw : ofWord w with
  | nan => rfl
  | infinity | finite =>
    rw [hw] at hnan
    cases hnan

end Binary32

namespace Word

theorem value_ne_none_iff {w : Word} : w.value ≠ none ↔ w.isNaN = false := by
  rw [ne_eq, ← Binary32.isNaN_iff_value, Bool.not_eq_true]

/-- Less than, as the library decides it, is less than of the values. -/
theorem flt_iff_value {x y : Word} {u v : EReal} (hx : x.value = some u) (hy : y.value = some v) :
    flt x y = true ↔ u < v := by
  obtain ⟨p, hp, hpu⟩ := Binary32.stands_of_value hx
  obtain ⟨q, hq, hqv⟩ := Binary32.stands_of_value hy
  rw [← hpu.lt_iff hqv]
  simp [flt, Binary32.lt, hp, hq]

/-- On two numbers the comparison is the order of the extended line. -/
theorem fge_iff_value {x y : Word} {u v : EReal} (hx : x.value = some u) (hy : y.value = some v) :
    fge x y = true ↔ v ≤ u := by
  obtain ⟨p, hp, hpu⟩ := Binary32.stands_of_value hx
  obtain ⟨q, hq, hqv⟩ := Binary32.stands_of_value hy
  rw [← not_lt, ← hpu.lt_iff hqv, not_lt]
  simp [fge, Binary32.ge, hp, hq]

theorem fne_iff_value {x y : Word} {u v : EReal} (hx : x.value = some u) (hy : y.value = some v) :
    fne x y = true ↔ u ≠ v := by
  obtain ⟨p, hp, hpu⟩ := Binary32.stands_of_value hx
  obtain ⟨q, hq, hqv⟩ := Binary32.stands_of_value hy
  rw [ne_eq, ← hpu.eq_iff hqv]
  simp [fne, Binary32.ne, hp, hq]

/-- Beside a NaN two words are not ordered, and not equal either. -/
theorem compare_of_nan {x y : Word} (h : x.value = none ∨ y.value = none) :
    flt x y = false ∧ fge x y = false ∧ fne x y = true := by
  unfold flt fge fne Binary32.lt Binary32.ge Binary32.ne
  rcases h with h | h <;> rw [Binary32.position_of_nan h]
  · exact ⟨rfl, rfl, rfl⟩
  · cases (Binary32.ofWord x).position <;> exact ⟨rfl, rfl, rfl⟩

end Word

end FourLane
