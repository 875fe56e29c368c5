import FourLane.Proofs.Binary32.Neighbours

/-!
# Words and the numbers they denote

Every word but a NaN denotes one number of the extended line, by its kind (`numbered`). The infinities
are at the ends, the two zeros share their number, and no other two words do
(`value_eq_value_iff`): from two equal numbers the words come back, except for the sign of a zero.
-/

namespace FourLane.Word

/-! ## The number of each kind -/

theorem value_of_isFinite {w : Word} (h : w.IsFinite) : w.value = some ((w.rational : ℝ) : EReal) :=
  if_pos h

theorem eq_rational_of_value {w : Word} {v : EReal} (h : w.value = some v) (hfin : w.IsFinite) :
    v = (w.rational : ℝ) :=
  Option.some.inj (h.symm.trans (value_of_isFinite hfin))

theorem value_of_not_isFinite {w : Word} (h : ¬ w.IsFinite) :
    w.value = if w.fractionField = 0 then some (if w.msb then ⊥ else ⊤) else none :=
  if_neg h

theorem value_signed_zero (negative : Bool) : (zero negative).value = some 0 := by
  rw [value_of_isFinite (isFinite_zero negative), rational_zero, Rat.cast_zero, EReal.coe_zero]

theorem value_infinity (negative : Bool) :
    (infinity negative).value = some (if negative then ⊥ else ⊤) := by
  have hfin : ¬ (infinity negative).IsFinite := by
    cases negative <;> decide
  have hfraction : (infinity negative).fractionField = 0 := by
    cases negative <;> decide
  have hsign : (infinity negative).msb = negative := by
    cases negative <;> decide
  rw [value_of_not_isFinite hfin, if_pos hfraction, hsign]

/-- What a word with the number `v` is, by its kind. -/
inductive Numbered (w : Word) (v : EReal) : Prop
  | infinite (hkind : w.kind = .infinite) (hfin : ¬ w.IsFinite) (hw : w = infinity w.msb)
      (hv : v = if w.msb then ⊥ else ⊤)
  | zero (hkind : w.kind = .zero) (hfin : w.IsFinite) (hw : w = zero w.msb) (hv : v = 0)
  | nonzero (hkind : w.kind = .nonzero) (hfin : w.IsFinite) (hrat : w.rational ≠ 0)
      (hv : v = (w.rational : ℝ))

/-- The kind of a word with a number says what the number is. -/
theorem numbered {w : Word} {v : EReal} (h : w.value = some v) : Numbered w v := by
  by_cases hfin : w.IsFinite
  · have hv := eq_rational_of_value h hfin
    by_cases hrat : w.rational = 0
    · refine .zero (by rw [kind, if_pos hfin, if_pos hrat]) hfin (eq_zero hrat) ?_
      rw [hv, hrat, Rat.cast_zero, EReal.coe_zero]
    · exact .nonzero (by rw [kind, if_pos hfin, if_neg hrat]) hfin hrat hv
  · have hvalue := value_of_not_isFinite hfin
    by_cases hfraction : w.fractionField = 0
    · refine .infinite (by rw [kind, if_neg hfin, if_pos hfraction]) hfin (eq_infinity hfin hfraction) ?_
      rw [if_pos hfraction] at hvalue
      exact Option.some.inj (h.symm.trans hvalue)
    · rw [if_neg hfraction, h] at hvalue
      cases hvalue

/-- The words without a number are the NaNs. -/
theorem value_eq_none_iff (w : Word) : w.value = none ↔ w.kind = .nan := by
  constructor
  · intro h
    by_cases hfin : w.IsFinite
    · rw [value_of_isFinite hfin] at h
      cases h
    · rw [value_of_not_isFinite hfin] at h
      split at h
      · cases h
      · rename_i hfraction
        rw [kind, if_neg hfin, if_neg hfraction]
  · intro h
    cases hvalue : w.value with
    | none => rfl
    | some v =>
      cases numbered hvalue with
      | infinite hkind | zero hkind | nonzero hkind =>
        rw [h] at hkind
        cases hkind

theorem kind_ne_nan_iff (w : Word) : w.kind ≠ .nan ↔ ∃ v, w.value = some v := by
  rw [← Option.ne_none_iff_exists', ne_eq, ne_eq, value_eq_none_iff]

/-! ## Equal numbers -/

section

variable {w x y : Word} {v : EReal}

theorem isFinite_iff_of_value (h : w.value = some v) : w.IsFinite ↔ v ≠ ⊥ ∧ v ≠ ⊤ := by
  cases numbered h with
  | infinite _ hfin _ hv => cases hsign : w.msb <;> simp [hfin, hv, hsign]
  | zero _ hfin _ hv => simp [hfin, hv]
  | nonzero _ hfin _ hv => simp [hfin, hv]

theorem value_nonpos (h : w.value = some v) (hsign : w.msb = true) : v ≤ 0 := by
  cases numbered h with
  | infinite _ _ _ hv => simp [hv, hsign]
  | zero _ _ _ hv => exact hv.le
  | nonzero _ _ _ hv =>
    rw [hv]
    exact_mod_cast rational_nonpos hsign

theorem value_nonneg (h : w.value = some v) (hsign : w.msb = false) : 0 ≤ v := by
  cases numbered h with
  | infinite _ _ _ hv => simp [hv, hsign]
  | zero _ _ _ hv => exact hv.ge
  | nonzero _ _ _ hv =>
    rw [hv]
    exact_mod_cast rational_nonneg hsign

theorem value_eq_zero_iff (w : Word) : w.value = some 0 ↔ ∃ s, w = zero s := by
  constructor
  · intro h
    cases numbered h with
    | infinite _ _ _ hv => cases hsign : w.msb <;> simp [hsign] at hv
    | zero _ _ hw => exact ⟨_, hw⟩
    | nonzero _ _ hrat hv =>
      have hzero : w.rational = 0 := by exact_mod_cast hv.symm
      exact absurd hzero hrat
  · rintro ⟨s, rfl⟩
    exact value_signed_zero s

/-- Each end of the line belongs to one infinity. -/
theorem value_eq_end_iff (w : Word) (negative : Bool) :
    w.value = some (if negative then ⊥ else ⊤) ↔ w = infinity negative := by
  constructor
  · intro h
    cases numbered h with
    | infinite _ _ hw hv =>
      have hsign : w.msb = negative := by
        cases hs : w.msb <;> cases negative <;> simp [hs] at hv ⊢
      rw [hw, hsign]
    | zero _ _ _ hv => cases negative <;> simp at hv
    | nonzero _ _ _ hv => cases negative <;> simp at hv
  · rintro rfl
    exact value_infinity negative

theorem eq_of_value_eq (hsign : x.msb = y.msb) (hx : x.value = some v) (hy : y.value = some v) :
    x = y := by
  have hsame : x.IsFinite ↔ y.IsFinite :=
    (isFinite_iff_of_value hx).trans (isFinite_iff_of_value hy).symm
  by_cases hfin : x.IsFinite
  · rw [value_of_isFinite hfin, ← hy, value_of_isFinite (hsame.1 hfin), Option.some.injEq] at hx
    exact eq_of_rational_eq hsign (by exact_mod_cast hx)
  · cases numbered hx with
    | infinite _ _ hxw hv =>
      rw [hv, value_eq_end_iff] at hy
      exact hxw.trans hy.symm
    | zero _ hxfin | nonzero _ hxfin => exact absurd hxfin hfin

/-- The same word, or two zeros. -/
def SameUpToZeroSign (x y : Word) : Prop := x = y ∨ ∃ s t, x = zero s ∧ y = zero t

/-- Words with the same number differ in the sign of a zero at most. -/
theorem SameUpToZeroSign.of_value_eq (hx : x.value = some v) (hy : y.value = some v) :
    SameUpToZeroSign x y := by
  by_cases hsign : x.msb = y.msb
  · exact .inl (eq_of_value_eq hsign hx hy)
  · -- The number of two words of different signs is on neither side of zero.
    have hv : v = 0 := by
      cases hxs : x.msb with
      | true =>
        rw [hxs] at hsign
        have hys : y.msb = false := by simpa using hsign
        exact le_antisymm (value_nonpos hx hxs) (value_nonneg hy hys)
      | false =>
        rw [hxs] at hsign
        have hys : y.msb = true := by simpa using hsign
        exact le_antisymm (value_nonpos hy hys) (value_nonneg hx hxs)
    rw [hv, value_eq_zero_iff] at hx hy
    obtain ⟨s, hs⟩ := hx
    obtain ⟨t, ht⟩ := hy
    exact .inr ⟨s, t, hs, ht⟩

theorem SameUpToZeroSign.value_eq (h : SameUpToZeroSign x y) : x.value = y.value := by
  rcases h with rfl | ⟨s, t, rfl, rfl⟩
  · rfl
  · rw [value_signed_zero, value_signed_zero]

/-- Two words that are numbers denote the same one only as the same word or as two zeros. -/
theorem value_eq_value_iff (hx : x.value ≠ none) : x.value = y.value ↔ SameUpToZeroSign x y := by
  obtain ⟨v, hv⟩ := Option.ne_none_iff_exists'.1 hx
  exact ⟨fun h => .of_value_eq hv (h.symm.trans hv), SameUpToZeroSign.value_eq⟩

end

end FourLane.Word
