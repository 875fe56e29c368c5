import FourLane.Proofs.Binary32.Numbers
import FourLane.Proofs.Binary32.Root

/-!
# Rounding keeps order

`Stores v w` says that the word `w` is the number `v` of the extended line, rounded once. Of two such
numbers the lesser is not stored as a greater word (`Stores.fge`), for every distance between the words
around them and wherever they leave the range of the format. Nothing but the definition of correct
rounding is used, so no case depends on the exponents of the numbers.
-/

namespace FourLane.Word

/-! ## Signs of exact results -/

/-- `negative` is the sign of `q`; a zero has both. -/
def IsSignOf (negative : Bool) (q : ℚ) : Prop := 0 ≤ signFactor negative * q

section

variable {s t : Bool} {p q : ℚ}

theorem isSignOf_msb (w : Word) : IsSignOf w.msb w.rational := by
  rw [IsSignOf, rational_eq_units, ← mul_assoc, signFactor_mul_self, one_mul]
  positivity

theorem isSignOf_decide (q : ℚ) : IsSignOf (q < 0) q := by
  have habs := congrArg (signFactor (q < 0) * ·) (signFactor_mul_abs q)
  rw [← mul_assoc, signFactor_mul_self, one_mul] at habs
  exact (abs_nonneg q).trans_eq habs

/-- The signs of a product and of a quotient are the exclusive or of both signs. -/
theorem IsSignOf.mul (hs : IsSignOf s p) (ht : IsSignOf t q) : IsSignOf (s ^^ t) (p * q) := by
  rw [IsSignOf, ← signFactor_mul, mul_mul_mul_comm]
  exact mul_nonneg hs ht

theorem IsSignOf.div (hs : IsSignOf s p) (ht : IsSignOf t q) : IsSignOf (s ^^ t) (p / q) := by
  rw [IsSignOf, ← signFactor_div, div_mul_div_comm]
  exact div_nonneg hs ht

theorem IsSignOf.inv (h : IsSignOf s q) : IsSignOf s q⁻¹ := by
  have hone : IsSignOf false 1 := by norm_num [IsSignOf, signFactor]
  simpa only [Bool.false_xor, one_div] using hone.div h

theorem IsSignOf.eq (hs : IsSignOf s q) (ht : IsSignOf t q) (hq : q ≠ 0) : s = t := by
  by_contra hne
  rw [IsSignOf, signFactor_of_ne hne, neg_mul, Left.nonneg_neg_iff] at hs
  exact mul_ne_zero (signFactor_ne_zero t) hq (le_antisymm hs ht)

theorem IsSignOf.of_pos (h : IsSignOf s q) (hq : 0 < q) : s = false := by
  have hpos : IsSignOf false q := by
    rw [IsSignOf, signFactor, if_neg Bool.false_ne_true, one_mul]
    exact hq.le
  exact h.eq hpos hq.ne'

theorem IsSignOf.of_neg (h : IsSignOf s q) (hq : q < 0) : s = true := by
  have hneg : IsSignOf true q := by
    rw [IsSignOf, signFactor, if_pos rfl, neg_one_mul]
    exact (neg_pos.2 hq).le
  exact h.eq hneg hq.ne

end

/-! ## Rounded numbers -/

section

variable {x y : Word}

/-- Any number is at most the positive infinity and at least the negative one. -/
theorem fge_infinity (h : x.kind ≠ .nan) : fge (infinity false) x = true := by
  obtain ⟨u, hu⟩ := (kind_ne_nan_iff x).1 h
  exact (fge_iff_value (value_infinity false) hu).2 le_top

theorem infinity_fge (h : y.kind ≠ .nan) : fge y (infinity true) = true := by
  obtain ⟨v, hv⟩ := (kind_ne_nan_iff y).1 h
  exact (fge_iff_value hv (value_infinity true)).2 bot_le

theorem fge_of_rational_le (hx : x.IsFinite) (hy : y.IsFinite) (h : x.rational ≤ y.rational) :
    fge y x = true := by
  rw [fge_iff_value (value_of_isFinite hy) (value_of_isFinite hx)]
  exact_mod_cast h

variable {s t : Bool} {p q : ℚ}

theorem Nearest.rational_le (hx : Nearest p x) (hy : Nearest q y) (h : p < q) :
    x.rational ≤ y.rational :=
  le_of_nearer h (hx.least y hy.finite) (hy.least x hx.finite)

theorem Nearest.rational_eq_zero (h : Nearest 0 x) : x.rational = 0 :=
  h.eq (isFinite_zero false) (rational_zero false)

/-- Rounding is monotone, from zero to infinity on both sides. -/
theorem Rounds.fge (hs : IsSignOf s p) (ht : IsSignOf t q) (hx : Rounds s p x) (hy : Rounds t q y)
    (h : p ≤ q) : Word.fge y x = true := by
  have hbound : (0 : ℚ) < 2 ^ 128 - 2 ^ 103 := by norm_num
  rcases le_or_gt p (-(2 ^ 128 - 2 ^ 103)) with hlow | hlow
  · have hp : p < 0 := by linarith
    rw [hx.overflow (by rw [abs_of_neg hp]; linarith), hs.of_neg hp]
    exact infinity_fge hy.kind_ne_nan
  rcases le_or_gt (2 ^ 128 - 2 ^ 103) q with hhigh | hhigh
  · have hq : 0 < q := by linarith
    rw [hy.overflow (by rwa [abs_of_pos hq]), ht.of_pos hq]
    exact fge_infinity hx.kind_ne_nan
  have hxnear := hx.nearest (abs_lt.2 ⟨hlow, by linarith⟩)
  have hynear := hy.nearest (abs_lt.2 ⟨by linarith, hhigh⟩)
  refine fge_of_rational_le hxnear.finite hynear.finite ?_
  rcases h.eq_or_lt with rfl | hlt
  · -- Ties go to one word, except that a zero can have two signs.
    by_cases hp : p = 0
    · rw [hp] at hxnear hynear
      rw [hxnear.rational_eq_zero, hynear.rational_eq_zero]
    · rw [hs.eq ht hp] at hx
      rw [hx.unique hy]
  · exact hxnear.rational_le hynear hlt

end

/-! ## Numbers of the extended line -/

/-- `w` is the number `v`, rounded once. -/
inductive Stores (v : EReal) (w : Word) : Prop
  | infinite (negative : Bool) (hw : w = infinity negative) (hv : v = if negative then ⊥ else ⊤)
  | number (negative : Bool) (q : ℚ) (hsign : IsSignOf negative q) (hw : Rounds negative q w)
      (hv : v = (q : ℝ))

section

variable {u v : EReal} {x y w : Word}

theorem stores_of_value (h : w.value = some v) : Stores v w := by
  cases numbered h with
  | infinite _ _ hw hv => exact .infinite _ hw hv
  | zero _ hfin | nonzero _ hfin =>
    exact .number _ _ (isSignOf_msb w) (rounds_rational hfin) (eq_rational_of_value h hfin)

theorem Stores.kind_ne_nan (h : Stores v w) : w.kind ≠ .nan := by
  cases h with
  | infinite negative hw =>
    rw [hw, kind_infinity]
    decide
  | number _ _ _ hw => exact hw.kind_ne_nan

theorem Stores.eq_infinity (h : Stores v w) (negative : Bool)
    (hv : v = if negative then ⊥ else ⊤) : w = infinity negative := by
  cases h with
  | infinite s hw hv' =>
    have hs : s = negative := by
      cases s <;> cases negative <;> simp [hv'] at hv ⊢
    rw [hw, hs]
  | number _ _ _ _ hv' => cases negative <;> simp [hv'] at hv

/-- Of two numbers the lesser is not stored as a greater word. -/
theorem Stores.fge (hx : Stores u x) (hy : Stores v y) (h : u ≤ v) : Word.fge y x = true := by
  cases hx with
  | infinite s hxw hu =>
    cases s with
    | true =>
      rw [hxw]
      exact infinity_fge hy.kind_ne_nan
    | false =>
      -- Nothing is above the end of the line, so both words are the infinity.
      have htop : ⊤ ≤ v := hu.ge.trans h
      rw [hy.eq_infinity false (top_le_iff.1 htop)]
      exact fge_infinity (Stores.infinite false hxw hu).kind_ne_nan
  | number s p hs hxw hu =>
    cases hy with
    | infinite t hyw hv =>
      cases t with
      | true =>
        rw [hu, hv] at h
        exact absurd (le_bot_iff.1 h) (EReal.coe_ne_bot _)
      | false =>
        rw [hyw]
        exact fge_infinity hxw.kind_ne_nan
    | number t q ht hyw hv =>
      rw [hu, hv] at h
      exact hxw.fge hs ht hyw (by exact_mod_cast h)

end

/-! ## Roots -/

theorem IsNormal.rational_ne_zero {w : Word} (h : w.IsNormal) : w.rational ≠ 0 := by
  intro hzero
  have hfield : (zero w.msb).exponentField = 0 := by cases w.msb <;> decide
  rw [← eq_zero hzero] at hfield
  exact h.1.ne' hfield

theorem RoundsRoot.rational_pos {q : ℚ} {r : Word} (h : RoundsRoot q r) : 0 < r.rational :=
  (rational_nonneg h.sign).lt_of_ne' h.normal.rational_ne_zero

/-- The root of the lesser number is not the greater word. -/
theorem RoundsRoot.rational_le {p q : ℚ} {r s : Word} (hr : RoundsRoot p r) (hs : RoundsRoot q s)
    (hp : 0 ≤ p) (h : p ≤ q) : r.rational ≤ s.rational := by
  by_contra! hlt
  have hne : p ≠ q := by
    rintro rfl
    exact hlt.ne' (congrArg rational (hr.unique hs))
  have hroot : √(p : ℝ) < √(q : ℝ) :=
    Real.sqrt_lt_sqrt (by exact_mod_cast hp) (by exact_mod_cast h.lt_of_ne hne)
  have hle := le_of_nearer hroot (hr.nearest s hs.normal.2 hlt.ne).le (hs.nearest r hr.normal.2 hlt.ne').le
  exact hlt.not_ge (by exact_mod_cast hle)

/-- `r` is the root of the number `v`, which is not negative, rounded once. -/
inductive StoresRoot (v : EReal) (r : Word) : Prop
  | infinite (hr : r = infinity false) (hv : v = ⊤)
  | zero (negative : Bool) (hr : r = zero negative) (hv : v = 0)
  | number (q : ℚ) (hq : 0 < q) (hr : RoundsRoot q r) (hv : v = (q : ℝ))

section

variable {u v : EReal} {r s : Word}

theorem StoresRoot.exists_value (h : StoresRoot v r) :
    ∃ t, r.value = some t ∧ 0 ≤ t ∧ (0 < v → 0 < t) := by
  cases h with
  | infinite hr =>
    rw [hr, value_infinity]
    exact ⟨⊤, rfl, le_top, fun _ => EReal.zero_lt_top⟩
  | zero negative hr hv =>
    rw [hr, value_signed_zero]
    exact ⟨0, rfl, le_rfl, fun hpos => absurd hv hpos.ne'⟩
  | number _ _ hr =>
    have hpos : (0 : EReal) < (r.rational : ℝ) := by exact_mod_cast hr.rational_pos
    exact ⟨_, value_of_isFinite hr.normal.2, hpos.le, fun _ => hpos⟩

/-- Roots are stored in the order of their operands. -/
theorem StoresRoot.fge (hr : StoresRoot u r) (hs : StoresRoot v s) (h : u ≤ v) :
    Word.fge s r = true := by
  cases hr with
  | infinite hrw hu =>
    have htop : v = ⊤ := top_le_iff.1 (hu.symm.trans_le h)
    cases hs with
    | infinite hsw =>
      rw [hsw, hrw]
      exact fge_infinity (by rw [kind_infinity]; decide)
    | zero _ _ hv =>
      rw [hv] at htop
      exact absurd htop EReal.zero_ne_top
    | number _ _ _ hv =>
      rw [hv] at htop
      exact absurd htop (EReal.coe_ne_top _)
  | zero negative hrw =>
    -- A zero of either sign is at most any root.
    obtain ⟨t, ht, hnonneg, -⟩ := hs.exists_value
    rw [hrw, fge_iff_value ht (value_signed_zero negative)]
    exact hnonneg
  | number p hp hrw hu =>
    rw [hu] at h
    cases hs with
    | infinite hsw =>
      rw [hsw]
      exact fge_infinity (kind_ne_nan_of_isFinite hrw.normal.2)
    | zero _ _ hv =>
      rw [hv] at h
      exact absurd hp (not_lt.2 (by exact_mod_cast h))
    | number q _ hsw hv =>
      rw [hv] at h
      exact fge_of_rational_le hrw.normal.2 hsw.normal.2
        (hrw.rational_le hsw hp.le (by exact_mod_cast h))

end

end FourLane.Word
