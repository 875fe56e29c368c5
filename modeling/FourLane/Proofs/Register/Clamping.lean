import FourLane.Proofs.Register.MinMax
import FourLane.Proofs.Register.Rewrites

/-!
# The clamp modifier and instructions that clamp

The clamp takes a number to the nearest one of the unit interval, `toUnit`, and a NaN to `1`
(`value_saturate`). Everything else is a fact about `toUnit`: a minimum with `1` and a maximum with `0` are
the same map, and as a monotone map it passes through the selection of the greater or the lesser of two.
A NaN agrees because the selecting instructions take their second operand beside it, which is the bound.
-/

namespace FourLane

namespace Word

/-! ## The clamp on numbers -/

/-- The number of the unit interval next to `v`. -/
noncomputable def toUnit (v : EReal) : EReal := Max.max (Min.min v 1) 0

theorem toUnit_mono : Monotone toUnit :=
  fun _ _ h => max_le_max (min_le_min h le_rfl) le_rfl

/-- The clamp moves what is outside the unit interval. -/
theorem toUnit_eq_iff (v : EReal) : toUnit v = v ↔ 0 ≤ v ∧ v ≤ 1 := by
  refine ⟨fun h => ?_, fun ⟨hlow, hhigh⟩ => ?_⟩
  · rw [← h]
    exact ⟨le_max_right _ _, max_le (min_le_right _ _) zero_le_one⟩
  · rw [toUnit, min_eq_left hhigh, max_eq_left hlow]

section

variable {x y : Word} {u v : EReal}

theorem value_saturate_of_nan (h : x.value = none) : (saturate x).value = some 1 := by
  rw [(saturate_clamped x).nan h]
  exact value_fone

theorem value_saturate (h : x.value = some v) : (saturate x).value = some (toUnit v) := by
  have hclamped := saturate_clamped x
  rcases le_or_gt 1 v with hhigh | hhigh
  · rw [hclamped.high v h hhigh, value_fone, toUnit, min_eq_right hhigh, max_eq_left zero_le_one]
  · rcases le_or_gt v 0 with hlow | hlow
    · rw [hclamped.low v h hlow, toUnit, min_eq_left hhigh.le, max_eq_right hlow]
    · rw [hclamped.inside v h hlow hhigh, (toUnit_eq_iff v).2 ⟨hlow.le, hhigh.le⟩, h]

/-- The clamp leaves the number of a word alone if it is in the unit interval, and only then. -/
theorem value_saturate_eq_iff (x : Word) : (saturate x).value = x.value ↔ InUnitInterval x := by
  unfold InUnitInterval
  cases h : x.value with
  | none => simp [value_saturate_of_nan h]
  | some v => simp [value_saturate h, toUnit_eq_iff]

/-- A clamped word is the word itself or an end of the unit interval. -/
theorem saturate_cases (x : Word) : saturate x = x ∨ saturate x = 0 ∨ saturate x = fone := by
  cases h : x.isNaN with
  | true => exact .inr (.inr (saturate_of_nan h))
  | false =>
    rw [saturate_of_not_nan h]
    split_ifs <;> simp

theorem saturate_saturate (x : Word) : saturate (saturate x) = saturate x := by
  rcases saturate_cases x with h | h | h
  · rw [h, h]
  · rw [h]
    decide
  · rw [h]
    decide

/-! ## Clamping by selection -/

theorem value_fmin (hx : x.value = some u) (hy : y.value = some v) :
    (fmin x y).value = some (Min.min u v) := by
  rcases fmin_fmax_cases hx hy with ⟨h, hmin, -⟩ | ⟨h, hmin, -⟩
  · rw [hmin, hx, min_eq_left h.le]
  · rw [hmin, hy, min_eq_right h]

theorem value_fmax (hx : x.value = some u) (hy : y.value = some v) :
    (fmax x y).value = some (Max.max u v) := by
  rcases fmin_fmax_cases hx hy with ⟨h, -, hmax⟩ | ⟨h, -, hmax⟩
  · rw [hmax, hy, max_eq_right h.le]
  · rw [hmax, hx, max_eq_left h]

/-- The minimum takes the place of a NaN before the maximum sees it. -/
theorem value_clamp (x : Word) : (fmax (fmin x fone) 0).value = (saturate x).value := by
  cases h : x.value with
  | none =>
    obtain ⟨hmin, -⟩ := fmin_fmax_of_nan (x := x) (y := fone) (.inl h)
    rw [hmin, value_fmax value_fone value_zero, value_saturate_of_nan h, max_eq_left zero_le_one]
  | some v => rw [value_fmax (value_fmin h value_fone) value_zero, value_saturate h, toUnit]

-- With the operands of the minimum exchanged a NaN gets through to the maximum and comes out as `0`.
example : fmax (fmin fone quietNaN) 0 = 0 ∧ saturate quietNaN = fone := by decide

theorem saturate_fmul_fone (x : Word) : saturate (fmul x fone) = saturate x := by
  by_cases h : x.kind = .nan
  · have hnan {w : Word} (hw : w.kind = .nan) : saturate w = fone :=
      (saturate_clamped w).nan ((value_eq_none_iff w).2 hw)
    rw [fmul_fone_of_nan h, hnan kind_quietNaN, hnan h]
  · rw [fmul_fone h]

end

end Word

namespace Register

/-- Every lane is clamped by itself: a product with one, under the modifier. -/
def saturated (a : Register) : Register := mul true a (Quad.splat Word.fone)

theorem get_saturated (a : Register) (l : Lane) : (saturated a).get l = Word.saturate (a.get l) := by
  rw [saturated, get_mul, Quad.get_splat, Word.store_true, Word.saturate_fmul_fone]

/-- The product with one under the modifier stores each lane as the modifier stores it. It has the number
of the maximum with `0` of the minimum with `1`, changes nothing the second time, and leaves the lanes of
the unit interval at their number and no others. On numbers it keeps the order, and a maximum or minimum
under the modifier is the one of the clamped lanes. -/
theorem saturation_is_clamping :
    (∀ (a : Register) (l : Lane),
      (saturated a).get l = Word.store true (a.get l) ∧
      (∃ v, ((saturated a).get l).value = some v ∧
        ((max false (min false a (Quad.splat Word.fone)) (Quad.splat 0)).get l).value = some v) ∧
      (saturated (saturated a)).get l = (saturated a).get l ∧
      (((saturated a).get l).value = (a.get l).value ↔ Word.InUnitInterval (a.get l))) ∧
    ∀ (a b : Register) (l : Lane) (u v : EReal),
      (a.get l).value = some u → (b.get l).value = some v →
      ∃ p q, ((saturated a).get l).value = some p ∧ ((saturated b).get l).value = some q ∧
        (v ≤ u → q ≤ p) ∧
        ((max true a b).get l).value = some (Max.max p q) ∧
        ((min true a b).get l).value = some (Min.min p q) := by
  refine ⟨fun a l => ?_, fun a b l u v hu hv => ?_⟩
  · rw [get_max, get_min, Quad.get_splat, Quad.get_splat, get_saturated, get_saturated, get_saturated]
    refine ⟨rfl, ?_, Word.saturate_saturate _, Word.value_saturate_eq_iff _⟩
    obtain ⟨v, hv, -⟩ := (Word.saturate_clamped (a.get l)).inUnitInterval
    exact ⟨v, hv, (Word.value_clamp _).trans hv⟩
  · rw [get_max, get_min, get_saturated, get_saturated, Word.store_true, Word.store_true]
    refine ⟨_, _, Word.value_saturate hu, Word.value_saturate hv, fun h => Word.toUnit_mono h, ?_, ?_⟩
    · rw [Word.value_saturate (Word.value_fmax hu hv), Word.toUnit_mono.map_max]
    · rw [Word.value_saturate (Word.value_fmin hu hv), Word.toUnit_mono.map_min]

/-- A NaN in lane `x`, and an infinity beside a negative number in lane `y`. -/
theorem saturation_is_clamping_past_ends :
    let a : Register := ⟨0x7fc00000, 0x7f800000, 0, 0⟩
    let b : Register := ⟨0x3f000000, 0xbf800000, 0, 0⟩
    (saturated a).get .x = Word.store true 0x7fc00000 ∧
    ∃ p q, ((saturated a).get .y).value = some p ∧ ((saturated b).get .y).value = some q ∧ q ≤ p ∧
      ((max true a b).get .y).value = some (Max.max p q) := by
  intro a b
  obtain ⟨hlanes, hnumbers⟩ := saturation_is_clamping
  have ha : (a.get .y).value = some ⊤ := Word.value_infinity false
  have hb : (b.get .y).value = some _ := Word.value_of_isFinite (by decide)
  obtain ⟨p, q, hp, hq, hmono, hmax, -⟩ := hnumbers a b .y _ _ ha hb
  exact ⟨(hlanes a .x).1, p, q, hp, hq, hmono le_top, hmax⟩

end Register

end FourLane
