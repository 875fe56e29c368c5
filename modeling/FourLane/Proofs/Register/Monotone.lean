import FourLane.Proofs.Binary32.Monotone
import FourLane.Proofs.Register.Roots
import Mathlib.Data.EReal.Inv

/-!
# Rounded arithmetic is monotone

A sum, a product or a quotient of two words that is a number stores the sum, the product or the quotient
of their numbers on the extended line (`stores_fadd`, `stores_fmul`, `stores_fdiv`): the conventions for
the infinities are the same there, apart from the pairs that have no result. The order of the line then
goes through the rounding. One over a root is rounded twice, and the order goes through both.
-/

namespace FourLane

namespace Word

section

variable {x y w : Word} {u v : EReal} {s t : Bool} {q : ℚ}

/-! ## Results at the ends of the line -/

theorem stores_infinity (negative : Bool) :
    Stores (if negative then ⊥ else ⊤) (infinity negative) := .infinite _ rfl rfl

theorem stores_zero (negative : Bool) : Stores 0 (zero negative) :=
  stores_of_value (value_signed_zero negative)

theorem end_of_kind (h : w.value = some v) (hkind : w.kind = .infinite) :
    v = if w.msb then ⊥ else ⊤ := by
  cases numbered h with
  | infinite _ _ _ hv => exact hv
  | zero hkind' | nonzero hkind' =>
    rw [hkind] at hkind'
    cases hkind'

theorem ne_end_of_isFinite (h : w.value = some v) (hfin : w.IsFinite) : v ≠ if s then ⊤ else ⊥ := by
  obtain ⟨hbot, htop⟩ := (isFinite_iff_of_value h).1 hfin
  cases s
  · exact hbot
  · exact htop

/-- What is not the other end leaves an end of the line where it is. -/
theorem end_add (hv : v ≠ if s then ⊤ else ⊥) : (if s then ⊥ else ⊤) + v = if s then ⊥ else ⊤ := by
  cases s with
  | true => exact EReal.bot_add v
  | false => exact EReal.top_add_of_ne_bot hv

theorem end_mul_end (s t : Bool) :
    (if s then ⊥ else ⊤ : EReal) * (if t then ⊥ else ⊤) = if s ^^ t then ⊥ else ⊤ := by
  cases s <;> cases t <;> simp

/-- An end of the line times a number is an end of the line, with the exclusive or of the signs. -/
theorem end_mul_coe (s : Bool) (ht : IsSignOf t q) (hq : q ≠ 0) :
    (if s then ⊥ else ⊤ : EReal) * (q : ℝ) = if s ^^ t then ⊥ else ⊤ := by
  rcases hq.lt_or_gt with hneg | hpos
  · have hneg' : (q : ℝ) < 0 := by exact_mod_cast hneg
    rw [ht.of_neg hneg]
    cases s with
    | true => exact EReal.bot_mul_coe_of_neg hneg'
    | false => exact EReal.top_mul_coe_of_neg hneg'
  · have hpos' : (0 : ℝ) < q := by exact_mod_cast hpos
    rw [ht.of_pos hpos]
    cases s with
    | true => exact EReal.bot_mul_coe_of_pos hpos'
    | false => exact EReal.top_mul_coe_of_pos hpos'

theorem end_div_coe (s : Bool) (ht : IsSignOf t q) (hq : q ≠ 0) :
    (if s then ⊥ else ⊤ : EReal) / (q : ℝ) = if s ^^ t then ⊥ else ⊤ := by
  rw [div_eq_mul_inv, ← EReal.coe_inv, ← Rat.cast_inv]
  exact end_mul_coe s ht.inv (inv_ne_zero hq)

/-! ## The number of a result -/

theorem stores_finiteSum (h : (finiteSum x y).IsStoredAs w) :
    Stores ((x.rational : ℝ) + (y.rational : ℝ) : ℝ) w := by
  rw [← Rat.cast_add]
  rcases (finiteSum_isStoredAs_iff x y w).1 h with ⟨hzero, hw⟩ | ⟨-, hw⟩
  · rw [hzero, hw, Rat.cast_zero, EReal.coe_zero]
    exact stores_zero _
  · exact .number _ _ (isSignOf_decide _) hw rfl

theorem not_stored_quietNaN (h : w.kind ≠ .nan) : ¬ (Exact.word quietNaN).IsStoredAs w := by
  intro hw
  rw [show w = quietNaN from hw] at h
  exact h kind_quietNaN

/-- A sum that is no NaN stores the sum of the numbers. -/
theorem stores_fadd (hx : x.value = some u) (hy : y.value = some v) (h : (fadd x y).kind ≠ .nan) :
    Stores (u + v) (fadd x y) := by
  have hstored := exactSum_stored x y
  have hcases := exactSum_cases x y
  generalize exactSum x y = e at hstored hcases
  cases hcases with
  | quiet => exact absurd hstored (not_stored_quietNaN h)
  | left hkind hother =>
    have hu := end_of_kind hx hkind
    have hv : v ≠ if x.msb then ⊤ else ⊥ := by
      rcases hother with rfl | hfin
      · rw [← Option.some.inj (hx.symm.trans hy), hu]
        cases y.msb <;> simp
      · exact ne_end_of_isFinite hy hfin
    rw [hu, end_add hv, ← hu, show fadd x y = x from hstored]
    exact stores_of_value hx
  | right hfin hkind =>
    have hv := end_of_kind hy hkind
    rw [add_comm, hv, end_add (ne_end_of_isFinite hx hfin), ← hv, show fadd x y = y from hstored]
    exact stores_of_value hy
  | finite hxfin hyfin =>
    rw [value_of_isFinite hxfin, Option.some.injEq] at hx
    rw [value_of_isFinite hyfin, Option.some.injEq] at hy
    rw [← hx, ← hy]
    exact stores_finiteSum hstored

theorem stores_fmul (hx : x.value = some u) (hy : y.value = some v) (h : (fmul x y).kind ≠ .nan) :
    Stores (u * v) (fmul x y) := by
  have hstored := exactProduct_stored x y
  generalize fmul x y = w at hstored h
  unfold exactProduct at hstored
  -- The kinds decide the exact product, and `h` excludes the NaN of zero times an end of the line.
  cases numbered hx with
  | infinite hxkind _ _ hu =>
    rw [hxkind] at hstored
    cases numbered hy with
    | infinite hykind _ _ hv =>
      rw [hykind] at hstored
      rw [show w = _ from hstored, hu, hv, end_mul_end]
      exact stores_infinity _
    | zero hykind =>
      rw [hykind] at hstored
      exact absurd hstored (not_stored_quietNaN h)
    | nonzero hykind _ hrat hv =>
      rw [hykind] at hstored
      rw [show w = _ from hstored, hu, hv, end_mul_coe _ (isSignOf_msb y) hrat]
      exact stores_infinity _
  | zero hxkind _ _ hu =>
    rw [hxkind] at hstored
    rw [hu, zero_mul]
    cases numbered hy with
    | infinite hykind =>
      rw [hykind] at hstored
      exact absurd hstored (not_stored_quietNaN h)
    | zero hykind | nonzero hykind =>
      rw [hykind] at hstored
      rw [show w = _ from hstored]
      exact stores_zero _
  | nonzero hxkind _ hxrat hu =>
    rw [hxkind] at hstored
    cases numbered hy with
    | infinite hykind _ _ hv =>
      rw [hykind] at hstored
      rw [show w = _ from hstored, hu, hv, mul_comm, end_mul_coe _ (isSignOf_msb x) hxrat, Bool.xor_comm]
      exact stores_infinity _
    | zero hykind _ _ hv =>
      rw [hykind] at hstored
      rw [show w = _ from hstored, hv, mul_zero]
      exact stores_zero _
    | nonzero hykind _ _ hv =>
      rw [hykind] at hstored
      refine .number _ _ ((isSignOf_msb x).mul (isSignOf_msb y)) hstored ?_
      rw [hu, hv, Rat.cast_mul, EReal.coe_mul]

theorem stores_fdiv (hx : x.value = some u) (hy : y.value = some v) (hzero : v ≠ 0)
    (h : (fdiv x y).kind ≠ .nan) : Stores (u / v) (fdiv x y) := by
  have hstored := exactQuotient_stored x y
  generalize fdiv x y = w at hstored h
  unfold exactQuotient at hstored
  cases numbered hy with
  | zero _ _ _ hv => exact absurd hv hzero
  | infinite hykind _ _ hv =>
    rw [hykind] at hstored
    -- Over an end of the line everything that is not such an end is zero.
    have hdiv : u / v = 0 := by
      rw [hv]
      cases y.msb
      · exact EReal.div_top
      · exact EReal.div_bot
    rw [hdiv]
    cases numbered hx with
    | infinite hxkind =>
      rw [hxkind] at hstored
      exact absurd hstored (not_stored_quietNaN h)
    | zero hxkind | nonzero hxkind =>
      rw [hxkind] at hstored
      rw [show w = _ from hstored]
      exact stores_zero _
  | nonzero hykind _ hyrat hv =>
    rw [hykind] at hstored
    cases numbered hx with
    | infinite hxkind _ _ hu =>
      rw [hxkind] at hstored
      rw [show w = _ from hstored, hu, hv, end_div_coe _ (isSignOf_msb y) hyrat]
      exact stores_infinity _
    | zero hxkind _ _ hu =>
      rw [hxkind] at hstored
      rw [show w = _ from hstored, hu, EReal.zero_div]
      exact stores_zero _
    | nonzero hxkind _ _ hu =>
      rw [hxkind] at hstored
      refine .number _ _ ((isSignOf_msb x).div (isSignOf_msb y)) hstored ?_
      rw [hu, hv, Rat.cast_div, EReal.coe_div]

/-! ## Roots -/

theorem storesRoot_fsqrt (hx : x.value = some u) (hu : 0 ≤ u) : StoresRoot u (fsqrt x) := by
  have hroot := holdsRoot_fsqrt x
  unfold HoldsRoot at hroot
  cases numbered hx with
  | infinite hkind _ hw hv =>
    cases hsign : x.msb with
    | true =>
      rw [hv, hsign] at hu
      exact absurd (le_bot_iff.1 hu) EReal.zero_ne_bot
    | false =>
      rw [hkind, hsign] at hroot
      rw [hsign] at hw hv
      exact .infinite (hroot.trans hw) hv
  | zero hkind _ hw hv =>
    rw [hkind] at hroot
    exact .zero _ (Eq.trans hroot hw) hv
  | nonzero hkind _ hrat hv =>
    rw [hv] at hu
    have hpos : 0 < x.rational := lt_of_le_of_ne (by exact_mod_cast hu) hrat.symm
    have hsign : x.msb = false := (isSignOf_msb x).of_pos hpos
    rw [hkind, hsign] at hroot
    exact .number _ hpos hroot.1 hv

/-- An inverse root stores one over the stored root. -/
theorem stores_frsqrt {r : EReal} (hr : (fsqrt x).value = some r) (hzero : r ≠ 0) :
    Stores (1 / r) (frsqrt x) := by
  have hnumber : (fsqrt x).kind ≠ .nan := (kind_ne_nan_iff _).2 ⟨r, hr⟩
  have hnan := kind_eq_nan_iff (holdsRoot_fsqrt x) (holdsInverseRoot_frsqrt x)
  exact stores_fdiv value_fone hr hzero (mt hnan.1 hnumber)

end

/-! ## The order of two results -/

section

variable {x y w : Word} {u v t : EReal} (hx : x.value = some u) (hy : y.value = some v) (h : u ≤ v)

include hx hy h

theorem fge_fadd (hxw : (fadd x w).kind ≠ .nan) (hyw : (fadd y w).kind ≠ .nan) :
    fge (fadd y w) (fadd x w) = true := by
  have hw : w.kind ≠ .nan := by
    intro hnan
    rw [fadd_of_nan x hnan] at hxw
    exact hxw kind_quietNaN
  obtain ⟨t, ht⟩ := (kind_ne_nan_iff w).1 hw
  exact (stores_fadd hx ht hxw).fge (stores_fadd hy ht hyw) (add_le_add_left h t)

theorem fge_fmul (hw : w.value = some t) (ht : 0 ≤ t) (hxw : (fmul x w).kind ≠ .nan)
    (hyw : (fmul y w).kind ≠ .nan) : fge (fmul y w) (fmul x w) = true :=
  (stores_fmul hx hw hxw).fge (stores_fmul hy hw hyw) (mul_le_mul_of_nonneg_right h ht)

theorem fge_fdiv (hw : w.value = some t) (ht : 0 < t) (hxw : (fdiv x w).kind ≠ .nan)
    (hyw : (fdiv y w).kind ≠ .nan) : fge (fdiv y w) (fdiv x w) = true :=
  (stores_fdiv hx hw ht.ne' hxw).fge (stores_fdiv hy hw ht.ne' hyw)
    (EReal.div_le_div_right_of_nonneg ht.le h)

theorem fge_fsqrt (hu : 0 ≤ u) : fge (fsqrt y) (fsqrt x) = true :=
  (storesRoot_fsqrt hx hu).fge (storesRoot_fsqrt hy (hu.trans h)) h

/-- One over the root turns the order around. -/
theorem fge_frsqrt (hu : 0 < u) : fge (frsqrt x) (frsqrt y) = true := by
  obtain ⟨r, hr, -, hrpos⟩ := (storesRoot_fsqrt hx hu.le).exists_value
  obtain ⟨s, hs, -, hspos⟩ := (storesRoot_fsqrt hy (hu.le.trans h)).exists_value
  have hrs : r ≤ s := (fge_iff_value hs hr).1 (fge_fsqrt hx hy h hu.le)
  replace hrpos := hrpos hu
  replace hspos := hspos (hu.trans_le h)
  refine (stores_frsqrt hs hspos.ne').fge (stores_frsqrt hr hrpos.ne') ?_
  rw [one_div, one_div]
  exact EReal.inv_strictAntiOn.antitoneOn hrpos hspos hrs

end

end Word

namespace Register

theorem compare_ge_eq_allOnes {r s : Register} {l : Lane} (h : Word.fge (r.get l) (s.get l) = true) :
    (compare .ge r s).get l = Word.allOnes :=
  (compare_eq_allOnes_iff r s l .ge).2 h

/-- Addition keeps the order of two lanes, and so do multiplication by a lane that is not negative,
division by a positive one and the square root; one over the root turns it around. The order of two
results is what the comparison of the registers says, wherever both results are numbers. The roots of
numbers that are not negative always are. -/
theorem arithmetic_monotone (a b c : Register) (l : Lane) {u v : EReal}
    (ha : (a.get l).value = some u) (hb : (b.get l).value = some v) (h : u ≤ v) :
    (((add false a c).get l).kind ≠ .nan → ((add false b c).get l).kind ≠ .nan →
      (compare .ge (add false b c) (add false a c)).get l = Word.allOnes) ∧
    (∀ t, (c.get l).value = some t →
      (0 ≤ t → ((mul false a c).get l).kind ≠ .nan → ((mul false b c).get l).kind ≠ .nan →
        (compare .ge (mul false b c) (mul false a c)).get l = Word.allOnes) ∧
      (0 < t → ((div false a c).get l).kind ≠ .nan → ((div false b c).get l).kind ≠ .nan →
        (compare .ge (div false b c) (div false a c)).get l = Word.allOnes)) ∧
    (0 ≤ u → (compare .ge (sqrt false b) (sqrt false a)).get l = Word.allOnes) ∧
    (0 < u → (compare .ge (rsq false a) (rsq false b)).get l = Word.allOnes) := by
  simp only [get_add, get_mul, get_div, Word.store_false]
  refine ⟨fun hac hbc => ?_, fun t hc => ⟨fun ht hac hbc => ?_, fun ht hac hbc => ?_⟩, fun hu => ?_,
    fun hu => ?_⟩ <;> apply compare_ge_eq_allOnes
  · rw [get_add, get_add]
    exact Word.fge_fadd ha hb h hac hbc
  · rw [get_mul, get_mul]
    exact Word.fge_fmul ha hb h hc ht hac hbc
  · rw [get_div, get_div]
    exact Word.fge_fdiv ha hb h hc ht hac hbc
  · rw [get_sqrt, get_sqrt]
    exact Word.fge_fsqrt ha hb h hu
  · rw [get_rsq, get_rsq]
    exact Word.fge_frsqrt ha hb h hu

/-- `1` and the word that follows it, with half of the step between them. -/
theorem arithmetic_monotone_neighbours :
    let a : Register := Quad.splat Word.fone
    let b : Register := Quad.splat 0x3f800001
    let c : Register := Quad.splat 0x33800000
    (compare .ge (add false b c) (add false a c)).get .w = Word.allOnes ∧
    (compare .ge (mul false b c) (mul false a c)).get .w = Word.allOnes ∧
    (compare .ge (div false b c) (div false a c)).get .w = Word.allOnes ∧
    (compare .ge (sqrt false b) (sqrt false a)).get .w = Word.allOnes ∧
    (compare .ge (rsq false a) (rsq false b)).get .w = Word.allOnes := by
  intro a b c
  have ha : (a.get .w).value = _ := Word.value_of_isFinite (by decide)
  have hb : (b.get .w).value = _ := Word.value_of_isFinite (by decide)
  have hc : (c.get .w).value = _ := Word.value_of_isFinite (by decide)
  have hzero := Word.value_signed_zero false
  have hab := (Word.fge_iff_value hb ha).1 (by decide +kernel)
  have hpos := (Word.flt_iff_value hzero ha).1 (by decide +kernel)
  have hcpos := (Word.flt_iff_value hzero hc).1 (by decide +kernel)
  obtain ⟨hadd, hother, hsqrt, hrsq⟩ := arithmetic_monotone a b c .w ha hb hab
  obtain ⟨hmul, hdiv⟩ := hother _ hc
  refine ⟨hadd ?_ ?_, hmul hcpos.le ?_ ?_, hdiv hcpos ?_ ?_, hsqrt hpos.le, hrsq hpos⟩ <;>
    exact Word.kind_ne_nan_of_isFinite (by decide +kernel)

end Register

end FourLane
