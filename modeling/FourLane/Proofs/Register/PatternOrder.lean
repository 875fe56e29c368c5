import FourLane.Proofs.Register.Comparisons

/-!
# The order of numbers and the order of patterns

A word is its sign and its magnitude, as a number and as a signed integer. On the line of units the sign
decides the side (`place`), and in two's complement it moves the magnitude down by its weight
(`toInt_of_set`). Both keep the order of magnitudes where the sign is clear. Where it is set only the
integer does, and the number turns the order around. So the two kinds of comparison answer alike, or alike
with the operands exchanged (`cmp_place`, `cmp_place_of_set`); two zeros of different signs are the only
words with one place and two patterns.
-/

namespace FourLane

namespace Word

/-! ## Sign and magnitude -/

/-- The place of a word on the line of units. -/
def place (w : Word) : Int := Binary32.signedUnits w.msb (Binary32.unitsOfBits w.magnitude)

theorem place_of_clear {w : Word} (h : w.msb = false) : w.place = Binary32.unitsOfBits w.magnitude := by
  rw [place, h, Binary32.signedUnits, if_neg Bool.false_ne_true]

theorem place_of_set {w : Word} (h : w.msb = true) : w.place = -Binary32.unitsOfBits w.magnitude := by
  rw [place, h, Binary32.signedUnits, if_pos rfl]

theorem toInt_of_clear {w : Word} (h : w.msb = false) : w.toInt = w.magnitude := by
  have hw := BitVec.msb_eq_false_iff_two_mul_lt.1 h
  rw [BitVec.toInt_eq_msb_cond, h, if_neg Bool.false_ne_true, magnitude, Binary32.signWeight]
  omega

theorem toInt_of_set {w : Word} (h : w.msb = true) :
    w.toInt = (w.magnitude : Int) - Binary32.signWeight := by
  have hw := w.isLt
  have hset := BitVec.msb_eq_true_iff_two_mul_ge.1 h
  rw [BitVec.toInt_eq_msb_cond, h, if_pos rfl, magnitude, Binary32.signWeight]
  omega

theorem magnitude_infinity (negative : Bool) : (infinity negative).magnitude = Binary32.infinityBits := by
  cases negative <;> decide

section

variable {x y : Word}

/-- The position of a word with a number is its place. -/
theorem position_eq_place (h : x.value ≠ none) : (Binary32.ofWord x).position = some x.place := by
  rw [ne_eq, value_eq_none_iff] at h
  have hx := x.reading
  generalize x.kind = k, Binary32.ofWord x = d at hx h
  cases hx with
  | nan => exact absurd rfl h
  | infinite hw =>
    rw [place, hw, magnitude_infinity, Binary32.unitsOfBits_infinityBits, ← hw]
    rfl
  | zero hw hfin hrat =>
    rw [place, (rational_eq_zero_iff x).1 hrat]
    rfl
  | nonzero => rfl

/-- Float comparisons answer as the comparisons of two integers that are ordered as the places are. -/
theorem compare_of_cmp_place (hx : x.value ≠ none) (hy : y.value ≠ none) {i j : Int}
    (h : cmp x.place y.place = cmp i j) :
    flt x y = decide (i < j) ∧ fge x y = decide (j ≤ i) ∧ fne x y = decide (i ≠ j) := by
  have hlt : x.place < y.place ↔ i < j := lt_iff_lt_of_cmp_eq_cmp h
  have hge : y.place ≤ x.place ↔ j ≤ i := le_iff_le_of_cmp_eq_cmp (cmp_eq_cmp_symm.1 h)
  have heq : x.place = y.place ↔ i = j := eq_iff_eq_of_cmp_eq_cmp h
  unfold flt fge fne Binary32.lt Binary32.ge Binary32.ne
  rw [position_eq_place hx, position_eq_place hy]
  simp only [hlt, hge, heq, ne_eq, and_self]

/-! ## Two words of one sign -/

/-- Words with clear signs stand to each other as their signed integers do. -/
theorem cmp_place_of_clear (hx : x.msb = false) (hy : y.msb = false) :
    cmp x.place y.place = cmp x.toInt y.toInt := by
  have hplace : StrictMono fun m => (Binary32.unitsOfBits m : Int) :=
    Nat.strictMono_cast.comp Binary32.unitsOfBits_strictMono
  have hint : StrictMono fun m : Nat => (m : Int) := Nat.strictMono_cast
  calc cmp x.place y.place
      = cmp x.magnitude y.magnitude := by
        rw [place_of_clear hx, place_of_clear hy]
        exact hplace.cmp_map_eq _ _
    _ = cmp x.toInt y.toInt := by
        rw [toInt_of_clear hx, toInt_of_clear hy]
        exact (hint.cmp_map_eq _ _).symm

/-- Words with set signs stand to each other the other way around. -/
theorem cmp_place_of_set (hx : x.msb = true) (hy : y.msb = true) :
    cmp x.place y.place = cmp y.toInt x.toInt := by
  have hplace : StrictAnti fun m => -(Binary32.unitsOfBits m : Int) :=
    (Nat.strictMono_cast.comp Binary32.unitsOfBits_strictMono).neg
  have hint : StrictMono fun m : Nat => (m : Int) - Binary32.signWeight :=
    fun _ _ h => Int.sub_lt_sub_right (Int.ofNat_lt.2 h) _
  calc cmp x.place y.place
      = cmp y.magnitude x.magnitude := by
        rw [place_of_set hx, place_of_set hy]
        exact hplace.cmp_map_eq _ _
    _ = cmp y.toInt x.toInt := by
        rw [toInt_of_set hx, toInt_of_set hy]
        exact (hint.cmp_map_eq _ _).symm

/-! ## Two words of different signs -/

theorem place_nonpos (h : x.msb = true) : x.place ≤ 0 := by
  rw [place_of_set h]
  omega

theorem place_nonneg (h : x.msb = false) : 0 ≤ x.place := by
  rw [place_of_clear h]
  omega

theorem eq_zero_of_place (h : x.place = 0) : x = zero x.msb := by
  refine eq_zero ?_
  rw [rational_eq_signedUnits, ← place, h, Int.cast_zero, zero_div]

/-- Below zero and above it, both orders have the negative word first; two zeros share their place. -/
theorem lt_of_signs (hx : x.msb = true) (hy : y.msb = false) (hzeros : ¬ (x = zero true ∧ y = zero false)) :
    x.place < y.place ∧ x.toInt < y.toInt := by
  have hxle := place_nonpos hx
  have hyge := place_nonneg hy
  refine ⟨lt_of_not_ge fun hle => hzeros ⟨?_, ?_⟩, ?_⟩
  · rw [← hx]
    exact eq_zero_of_place (by omega)
  · rw [← hy]
    exact eq_zero_of_place (by omega)
  · have hneg := BitVec.toInt_neg_of_msb_true hx
    have hnonneg := BitVec.toInt_nonneg_of_msb_false hy
    omega

/-- Unless both signs are set, the orders differ on zeros of different signs only. -/
theorem cmp_place (hset : ¬ (x.msb = true ∧ y.msb = true))
    (hzeros : ¬ ∃ s, x = zero s ∧ y = zero (!s)) : cmp x.place y.place = cmp x.toInt y.toInt := by
  cases hx : x.msb with
  | false =>
    cases hy : y.msb with
    | false => exact cmp_place_of_clear hx hy
    | true =>
      obtain ⟨hplace, hint⟩ := lt_of_signs hy hx fun h => hzeros ⟨false, h.2, h.1⟩
      rw [hplace.cmp_eq_gt, hint.cmp_eq_gt]
  | true =>
    have hy : y.msb = false := by
      rw [← Bool.not_eq_true]
      exact fun hy => hset ⟨hx, hy⟩
    obtain ⟨hplace, hint⟩ := lt_of_signs hx hy fun h => hzeros ⟨true, h⟩
    rw [hplace.cmp_eq_lt, hint.cmp_eq_lt]

/-! ## The lesser integer -/

theorem ite_toInt_eq_fmin (h : flt x y = decide (x.toInt < y.toInt)) :
    (if x.toInt < y.toInt then x else y) = fmin x y := by
  simp [fmin, h]

/-- Equal integers are one word, so it does not matter which of them is selected. -/
theorem ite_toInt_eq_fmax (h : fge x y = decide (x.toInt ≤ y.toInt)) :
    (if x.toInt < y.toInt then x else y) = fmax x y := by
  rw [fmax, h]
  rcases lt_trichotomy x.toInt y.toInt with hlt | heq | hgt
  · simp [hlt, hlt.le]
  · simp [BitVec.eq_of_toInt_eq heq]
  · simp [hgt.not_gt, hgt.not_ge]

end

end Word

/-- Two zeros of different signs are equal as numbers and not as integers. -/
theorem Comparison.holds_zeros (s : Bool) :
    ne.holds (Word.zero s) (Word.zero (!s)) = false ∧ ine.holds (Word.zero s) (Word.zero (!s)) = true := by
  cases s <;> decide

namespace Register

theorem compare_congr {op op' : Comparison} {a b a' b' : Register} {l : Lane}
    (h : op.holds (a.get l) (b.get l) = op'.holds (a'.get l) (b'.get l)) :
    (compare op a b).get l = (compare op' a' b').get l := by
  rw [get_compare, get_compare, h]

/-- On numbers the float comparisons answer as the signed integer comparisons of the same lanes. Where both
signs are set the integer comparison takes the operands the other way round. Zeros of different signs are
the one exception: there not equal tells the two readings apart. So the integer minimum is the float
minimum, and the float maximum where both signs are set. -/
theorem comparisons_agree_on_patterns (a b : Register) (l : Lane)
    (ha : (a.get l).value ≠ none) (hb : (b.get l).value ≠ none) :
    let x := a.get l
    let y := b.get l
    (x.msb = true ∧ y.msb = true →
      (compare .lt a b).get l = (compare .ilt b a).get l ∧
      (compare .ge a b).get l = (compare .ige b a).get l ∧
      (compare .ne a b).get l = (compare .ine a b).get l ∧
      (imin a b).get l = (max false a b).get l) ∧
    (¬ (x.msb = true ∧ y.msb = true) →
      (¬ (∃ s, x = Word.zero s ∧ y = Word.zero (!s)) →
        (compare .lt a b).get l = (compare .ilt a b).get l ∧
        (compare .ge a b).get l = (compare .ige a b).get l ∧
        (compare .ne a b).get l = (compare .ine a b).get l ∧
        (imin a b).get l = (min false a b).get l) ∧
      ((∃ s, x = Word.zero s ∧ y = Word.zero (!s)) →
        (compare .ne a b).get l ≠ (compare .ine a b).get l)) := by
  intro x y
  refine ⟨fun ⟨hx, hy⟩ => ?_, fun hset => ⟨fun hzeros => ?_, ?_⟩⟩
  · obtain ⟨hlt, hge, hne⟩ := Word.compare_of_cmp_place ha hb (Word.cmp_place_of_set hx hy)
    refine ⟨compare_congr hlt, compare_congr hge, compare_congr ?_, ?_⟩
    · exact hne.trans (decide_eq_decide.2 ne_comm)
    · rw [get_imin, get_max, Word.store_false]
      exact Word.ite_toInt_eq_fmax hge
  · obtain ⟨hlt, hge, hne⟩ := Word.compare_of_cmp_place ha hb (Word.cmp_place hset hzeros)
    refine ⟨compare_congr hlt, compare_congr hge, compare_congr hne, ?_⟩
    rw [get_imin, get_min, Word.store_false]
    exact Word.ite_toInt_eq_fmin hlt
  · rintro ⟨s, hx, hy⟩
    obtain ⟨hne, hine⟩ := Comparison.holds_zeros s
    rw [get_compare, get_compare, show a.get l = _ from hx, show b.get l = _ from hy, hne, hine]
    decide

/-- Two negative numbers, two numbers around zero and the two zeros. -/
theorem comparisons_agree_on_patterns_by_sign :
    let a : Register := ⟨0xff800000, 0x80000001, 0x80000000, 0⟩
    let b : Register := ⟨0xbf800000, 0x7f800000, 0, 0⟩
    (compare .lt a b).x = (compare .ilt b a).x ∧ (imin a b).x = (max false a b).x ∧
    (compare .lt a b).y = (compare .ilt a b).y ∧ (imin a b).y = (min false a b).y ∧
    (compare .ne a b).z ≠ (compare .ine a b).z := by
  intro a b
  have hlane (l : Lane) : (a.get l).value ≠ none ∧ (b.get l).value ≠ none := by
    rw [Word.value_ne_none_iff, Word.value_ne_none_iff]
    cases l <;> decide
  obtain ⟨hset, -⟩ := comparisons_agree_on_patterns a b .x (hlane .x).1 (hlane .x).2
  obtain ⟨-, hsigns⟩ := comparisons_agree_on_patterns a b .y (hlane .y).1 (hlane .y).2
  obtain ⟨-, hzeros⟩ := comparisons_agree_on_patterns a b .z (hlane .z).1 (hlane .z).2
  obtain ⟨hxlt, -, -, hxmin⟩ := hset (by decide)
  obtain ⟨hylt, -, -, hymin⟩ := (hsigns (by decide)).1 (by decide)
  exact ⟨hxlt, hxmin, hylt, hymin, (hzeros (by decide)).2 ⟨true, rfl, rfl⟩⟩

end Register

end FourLane
