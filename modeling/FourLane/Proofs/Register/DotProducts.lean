import FourLane.Proofs.Register.Arithmetic
import FourLane.Proofs.Register.Unfused
import FourLane.Proofs.Binary32.Numbers

/-!
# Dot products and zeros

A sum is the negative zero only if both terms are (`negative_zeros_of_fadd`): an exact sum of zero gets
the positive sign, and any other sum of two words is at least one unit from zero, so it is not rounded
to a zero. The running sum of a dot product starts at the positive zero and never leaves `IsSum`. On
such a word adding a zero of either sign changes no bit, which makes padding with zeros exact.
-/

namespace FourLane

namespace Word

/-! ## Sums that are a zero -/

/-- The exact sum of two words is a whole number of units. -/
theorem exists_units_add (x y : Word) :
    ∃ k : ℤ, x.rational + y.rational = k / Binary32.unitsPerOne := by
  rw [x.rational_eq_signedUnits, y.rational_eq_signedUnits, ← add_div]
  exact ⟨_, by rw [← Int.cast_add]⟩

/-- The negative number nearest to zero. -/
theorem rational_last_negative : rational 0x80000001 = -1 / (Binary32.unitsPerOne : ℚ) := by
  have hsign : (0x80000001 : Word).msb = true := by decide
  have hmagnitude : magnitude 0x80000001 = 1 := by decide
  have hunits : Binary32.unitsOfBits 1 = 1 := by decide
  rw [rational_eq_units, hsign, hmagnitude, hunits, signFactor, if_pos rfl, Nat.cast_one]
  ring

/-- A whole number of units below zero is not rounded to a zero. -/
theorem not_rounds_negative_zero {k : ℤ} (hk : k < 0) {negative : Bool} :
    ¬ Rounds negative (k / Binary32.unitsPerOne) (zero true) := by
  intro h
  have hone := Binary32.cast_unitsPerOne_pos
  rcases lt_or_ge |(k : ℚ) / Binary32.unitsPerOne| (2 ^ 128 - 2 ^ 103) with hsmall | hbig
  · have hle : (k : ℚ) / Binary32.unitsPerOne ≤ rational 0x80000001 := by
      rw [rational_last_negative]
      gcongr
      exact_mod_cast Int.le_sub_one_of_lt hk
    have hzero := (h.nearest hsmall).ge (by decide) hle
    rw [rational_zero, rational_last_negative, le_div_iff₀ hone, zero_mul] at hzero
    norm_num at hzero
  · have hover := h.overflow hbig
    revert hover
    cases negative <;> decide

/-- A sum is the negative zero only if both words are. -/
theorem negative_zeros_of_finiteSum {x y : Word} (h : (finiteSum x y).IsStoredAs (zero true)) :
    x = zero true ∧ y = zero true := by
  rcases (finiteSum_isStoredAs_iff x y _).1 h with ⟨-, hzero⟩ | ⟨-, h⟩
  · by_contra hne
    rw [decide_eq_false hne] at hzero
    exact absurd hzero (by decide)
  · obtain ⟨k, hk⟩ := exists_units_add x y
    have hneg : x.rational + y.rational < 0 := of_decide_eq_true h.sign.symm
    have hkneg : k < 0 := by
      rw [hk, div_lt_iff₀ Binary32.cast_unitsPerOne_pos, zero_mul] at hneg
      exact_mod_cast hneg
    rw [hk] at h
    exact absurd h (not_rounds_negative_zero hkneg)

theorem negative_zeros_of_fadd {x y : Word} (h : fadd x y = zero true) :
    x = zero true ∧ y = zero true := by
  have hstored := exactSum_stored x y
  rw [h] at hstored
  have hcases := exactSum_cases x y
  generalize exactSum x y = e at hstored hcases
  have hkind : (zero true).kind = .zero := kind_zero true
  cases hcases with
  | quiet => exact absurd (show zero true = quietNaN from hstored) (by decide)
  | left hx =>
    change zero true = x at hstored
    rw [← hstored, hkind] at hx
    cases hx
  | right _ hy =>
    change zero true = y at hstored
    rw [← hstored, hkind] at hy
    cases hy
  | finite => exact negative_zeros_of_finiteSum hstored

/-! ## The running sum -/

/-- What the sum of some products can be: any word but the negative zero and the NaNs that no operation
produces. -/
structure IsSum (w : Word) : Prop where
  ne_zero : w ≠ zero true
  nan : w.kind = .nan → w = quietNaN

theorem isSum_zero : IsSum (zero false) := by
  refine ⟨by decide, fun h => ?_⟩
  rw [kind_zero] at h
  cases h

theorem kind_finiteSum_ne_nan {x y w : Word} (h : (finiteSum x y).IsStoredAs w) : w.kind ≠ .nan := by
  rcases (finiteSum_isStoredAs_iff x y w).1 h with ⟨-, hw⟩ | ⟨-, hw⟩
  · rw [hw, kind_zero]
    decide
  · exact hw.kind_ne_nan

/-- A running sum stays one, whatever is added. -/
theorem IsSum.fadd {s : Word} (h : IsSum s) (p : Word) : IsSum (fadd s p) := by
  refine ⟨fun hzero => h.ne_zero (negative_zeros_of_fadd hzero).1, fun hnan => ?_⟩
  have hstored := exactSum_stored s p
  have hcases := exactSum_cases s p
  generalize exactSum s p = e at hstored hcases
  cases hcases with
  | quiet => exact hstored
  | left hs =>
    rw [show Word.fadd s p = s from hstored, hs] at hnan
    cases hnan
  | right _ hp =>
    rw [show Word.fadd s p = p from hstored, hp] at hnan
    cases hnan
  | finite => exact absurd hnan (kind_finiteSum_ne_nan hstored)

/-- A zero of either sign adds nothing to a running sum. -/
theorem IsSum.finiteSum_zero {s : Word} (h : IsSum s) (hfin : s.IsFinite) (t : Bool) :
    (finiteSum s (zero t)).IsStoredAs s := by
  have hnot : ¬ (s = zero true ∧ zero t = zero true) := fun hboth => h.ne_zero hboth.1
  rw [finiteSum_isStoredAs_iff, rational_zero, add_zero, decide_eq_false hnot]
  by_cases hzero : s.rational = 0
  · refine .inl ⟨hzero, ?_⟩
    cases hsign : s.msb with
    | false => rw [← hsign, ← eq_zero hzero]
    | true => exact absurd (hsign ▸ eq_zero hzero) h.ne_zero
  · refine .inr ⟨hzero, ?_⟩
    rw [← msb_eq_decide_rational hzero]
    exact rounds_rational hfin

/-- Adding a zero changes no bit of a sum. -/
theorem IsSum.fadd_zero {s : Word} (h : IsSum s) (t : Bool) : Word.fadd s (zero t) = s := by
  refine (exactSum_stored s (zero t)).unique ?_
  have hfin := isFinite_iff_kind s
  rw [exactSum, kind_zero]
  cases hs : s.kind with
  | nan => exact h.nan hs
  | infinite => rfl
  | zero => exact h.finiteSum_zero (hfin.2 (.inl hs)) t
  | nonzero => exact h.finiteSum_zero (hfin.2 (.inr hs)) t

/-! ## Products with a zero -/

/-- A zero times a finite word is a zero. -/
theorem exists_fmul_zero (s : Bool) {y : Word} (hy : y.IsFinite) : ∃ t, fmul (zero s) y = zero t := by
  have hstored := exactProduct_stored (zero s) y
  rw [exactProduct, kind_zero] at hstored
  rcases (isFinite_iff_kind y).1 hy with hkind | hkind <;> rw [hkind] at hstored <;> exact ⟨_, hstored⟩

/-- Zero times a word that is not finite is a NaN. -/
theorem fmul_zero_of_not_isFinite (s : Bool) {y : Word} (hy : ¬ y.IsFinite) :
    fmul (zero s) y = quietNaN := by
  have hstored := exactProduct_stored (zero s) y
  rw [isFinite_iff_kind, not_or] at hy
  rw [exactProduct, kind_zero] at hstored
  cases hkind : y.kind with
  | nan | infinite =>
    rw [hkind] at hstored
    exact hstored
  | zero => exact absurd hkind hy.1
  | nonzero => exact absurd hkind hy.2

end Word

namespace Register

open Word (fadd fmul store)

variable (a b : Register)

theorem isSum_dot (width : Nat) : Word.IsSum (dot width false a b) := by
  rw [dot, Word.store_false]
  induction Lane.all.take width using List.reverseRecOn with
  | nil => exact Word.isSum_zero
  | append_singleton lanes l ih =>
    rw [List.foldl_append]
    exact ih.fadd _

theorem dot_succ (sat : Bool) (l : Lane) :
    dot (l.index + 1) sat a b = store sat (fadd (dot l.index false a b) (fmul (a.get l) (b.get l))) := by
  rw [dot, l.take_index_succ, List.foldl_append]
  rfl

theorem dot_comm (width : Nat) (sat : Bool) : dot width sat a b = dot width sat b a := by
  unfold dot
  simp only [Word.fmul_comm (a.get _)]

/-- A lane with a zero does not count if the other operand is finite there, and makes the result the
quiet NaN if it is not. -/
theorem dot_zero_lane {l : Lane} {s : Bool} (h : a.get l = Word.zero s) :
    ((b.get l).IsFinite → ∀ sat, dot (l.index + 1) sat a b = dot l.index sat a b) ∧
      (¬ (b.get l).IsFinite → dot (l.index + 1) false a b = Word.quietNaN) := by
  refine ⟨fun hfin sat => ?_, fun hfin => ?_⟩
  · obtain ⟨t, ht⟩ := Word.exists_fmul_zero s hfin
    rw [dot_succ, h, ht, (isSum_dot a b l.index).fadd_zero]
    rfl
  · rw [dot_succ, h, Word.fmul_zero_of_not_isFinite s hfin, Word.fadd_of_nan _ Word.kind_quietNaN, Word.store_false]

/-- No dot product, and so no prefix of one, is the negative zero. A lane where one operand is a zero can
be left out if the other operand is finite there; if it is not, the result is the quiet NaN. -/
theorem dot_products_and_zeros :
    (∀ (width : Nat) (a b : Register), dot width false a b ≠ Word.zero true) ∧
    ∀ (a b : Register) (l : Lane) (s : Bool), a.get l = Word.zero s →
      ((b.get l).IsFinite → ∀ sat,
        dot (l.index + 1) sat a b = dot l.index sat a b ∧
          dot (l.index + 1) sat b a = dot l.index sat b a) ∧
      (¬ (b.get l).IsFinite →
        dot (l.index + 1) false a b = Word.quietNaN ∧ dot (l.index + 1) false b a = Word.quietNaN) := by
  refine ⟨fun width a b => (isSum_dot a b width).ne_zero, fun a b l s h => ?_⟩
  obtain ⟨hfinite, hother⟩ := dot_zero_lane a b h
  refine ⟨fun hfin sat => ⟨hfinite hfin sat, ?_⟩, fun hfin => ⟨hother hfin, ?_⟩⟩
  · rw [dot_comm b a, dot_comm b a, hfinite hfin sat]
  · rw [dot_comm b a, hother hfin]

/-- A negative zero in lane `w` beside the greatest finite word, and in lane `z` beside an infinity. -/
theorem dot_products_and_zeros_padding :
    let a : Register := ⟨0xbf800000, 0x80000000, 0x80000000, 0x80000000⟩
    let b : Register := ⟨0, 0x3f800000, 0xff800000, 0x7f7fffff⟩
    dot 2 false a b ≠ Word.zero true ∧ dot 4 true a b = dot 3 true a b ∧
      dot 3 false b a = Word.quietNaN := by
  intro a b
  obtain ⟨hnever, hpadding⟩ := dot_products_and_zeros
  obtain ⟨hfinite, -⟩ := hpadding a b .w true rfl
  obtain ⟨-, hinfinite⟩ := hpadding a b .z true rfl
  exact ⟨hnever 2 a b, (hfinite (by decide) true).1, (hinfinite (by decide)).2⟩

end Register

end FourLane
