import FourLane.Proofs.Register.Rewrites

/-!
# Exchanged operands and operands of the other sign

Sums and products do not depend on the order of their operands, and products and quotients do not notice
that both change their sign. A dot product and a multiply-add are made of these, so what holds on words
holds there as well; only a spread lane tells the two factors of a multiply-add apart.

A result changes its sign with one operand of a product or a quotient, and with both of a sum. It is the
exact result that does so (`exactQuotient_negate`, `exactSum_turned`), and rounding to nearest keeps it that
way. Two results are left out: the NaN, which has one sign only, and the zero of a sum, which is positive
for opposite terms whichever of them is the negative one.
-/

namespace FourLane

namespace Word

variable {x y : Word}

/-! ## Both signs of a product or a quotient -/

/-- Two changes of sign cancel in an exact product. -/
theorem exactProduct_negate_negate (x y : Word) :
    exactProduct (negate x) (negate y) = exactProduct x y := by
  simp only [exactProduct, kind_negate, msb_negate, rational_negate, neg_mul_neg, Bool.not_xor_not]

theorem exactQuotient_negate_negate (x y : Word) :
    exactQuotient (negate x) (negate y) = exactQuotient x y := by
  simp only [exactQuotient, kind_negate, msb_negate, rational_negate, neg_div_neg_eq, Bool.not_xor_not]

theorem fmul_negate_negate (x y : Word) : fmul (negate x) (negate y) = fmul x y := by
  refine (exactProduct_stored _ _).unique ?_
  rw [exactProduct_negate_negate]
  exact exactProduct_stored x y

theorem fdiv_negate_negate (x y : Word) : fdiv (negate x) (negate y) = fdiv x y := by
  refine (exactQuotient_stored _ _).unique ?_
  rw [exactQuotient_negate_negate]
  exact exactQuotient_stored x y

/-! ## One sign of a product or a quotient -/

theorem exactQuotient_negate (x y : Word) :
    exactQuotient x y = .word quietNaN ∨ exactQuotient (negate x) y = (exactQuotient x y).negate := by
  unfold exactQuotient
  rw [kind_negate]
  cases x.kind <;> cases y.kind <;> simp [Exact.negate, negate_infinity, negate_zero, neg_div]

theorem negate_fmul (h : (fmul x y).kind ≠ .nan) : fmul (negate x) y = negate (fmul x y) := by
  rw [fmul_comm] at h
  rw [fmul_comm, fmul_negate h, fmul_comm]

theorem negate_fdiv (h : (fdiv x y).kind ≠ .nan) : fdiv (negate x) y = negate (fdiv x y) :=
  (exactQuotient_stored x y).eq_negate (exactQuotient_stored (negate x) y) (exactQuotient_negate x y) h

/-- A change of sign that can be undone keeps the NaNs apart from the numbers, both ways. -/
theorem kind_apply_negate {f : Word → Word}
    (h : ∀ x, (f x).kind ≠ .nan → f (negate x) = negate (f x)) (x : Word) :
    (f (negate x)).kind = (f x).kind := by
  by_cases hx : (f x).kind = .nan
  · rw [hx]
    by_contra hnan
    have hback := h (negate x) hnan
    rw [negate_negate] at hback
    rw [hback, kind_negate] at hx
    exact hnan hx
  · rw [h x hx, kind_negate]

/-! ## Both signs of a sum -/

/-- What becomes of an exact sum when its terms change their signs. -/
inductive Turned : Exact → Exact → Prop
  | quiet : Turned (.word quietNaN) (.word quietNaN)
  | zeros (s t : Bool) : Turned (.word (zero s)) (.word (zero t))
  | opposite (e : Exact) : Turned e e.negate

/-- A sum of two negated words is turned, unless it is zero. -/
theorem finiteSum_turned (x y : Word) : Turned (finiteSum x y) (finiteSum (negate x) (negate y)) := by
  unfold finiteSum
  rw [rational_negate, rational_negate, ← neg_add]
  generalize x.rational + y.rational = v
  dsimp only
  by_cases hv : v = 0
  · rw [if_pos hv, if_pos (neg_eq_zero.2 hv)]
    exact .zeros _ _
  · have hsign : decide (-v < 0) = !decide (v < 0) := by
      rw [← decide_not, decide_eq_decide, neg_lt_zero, not_lt]
      exact ⟨le_of_lt, fun h => h.lt_of_ne' hv⟩
    rw [if_neg hv, if_neg (neg_ne_zero.2 hv), hsign]
    exact .opposite (.number _ v)

theorem exactSum_turned (x y : Word) : Turned (exactSum x y) (exactSum (negate x) (negate y)) := by
  have hinj : negate x = negate y ↔ x = y :=
    (Function.LeftInverse.injective negate_negate).eq_iff
  have hfinite := finiteSum_turned x y
  unfold exactSum
  rw [kind_negate, kind_negate]
  cases x.kind with
  | nan => exact .quiet
  | infinite =>
    cases y.kind with
    | nan => exact .quiet
    | infinite =>
      -- Two infinities: equal ones stay equal, opposite ones stay opposite.
      simp only [hinj]
      split
      · exact .opposite (.word x)
      · exact .quiet
    | zero | nonzero => exact .opposite (.word x)
  | zero | nonzero =>
    cases y.kind with
    | nan => exact .quiet
    | infinite => exact .opposite (.word y)
    | zero | nonzero => exact hfinite

/-- What is stored of a turned result is negated, or a NaN or a zero again. -/
theorem Turned.stored {e e' : Exact} {w w' : Word} (h : Turned e e') (hw : e.IsStoredAs w)
    (hw' : e'.IsStoredAs w') :
    w'.kind = w.kind ∧ (w.kind ≠ .nan → w.kind ≠ .zero → w' = negate w) := by
  cases h with
  | quiet =>
    rw [show w = quietNaN from hw, show w' = quietNaN from hw']
    exact ⟨rfl, fun hnan => absurd kind_quietNaN hnan⟩
  | zeros s t =>
    rw [show w = zero s from hw, show w' = zero t from hw', kind_zero, kind_zero]
    exact ⟨rfl, fun _ hzero => absurd rfl hzero⟩
  | opposite =>
    have heq : w' = negate w := hw'.unique hw.negate
    rw [heq, kind_negate]
    exact ⟨rfl, fun _ _ => rfl⟩

end Word

namespace Register

/-- The register with the other sign in every lane. -/
def negate (a : Register) : Register := xor .plain a (Quad.splat 0x80000000)

theorem get_negate (a : Register) (l : Lane) : (negate a).get l = Word.negate (a.get l) := by
  rw [negate, get_xor, Quad.get_splat, Dialect.xorWords_of_off rfl]
  rfl

section

variable (a b c : Register) (sat : Bool)

/-! ## Exchanged operands -/

theorem add_exchange : add sat a b = add sat b a := by
  apply Quad.ext_get
  intro l
  rw [get_add, get_add, Word.fadd_comm]

theorem mul_exchange : mul sat a b = mul sat b a := by
  apply Quad.ext_get
  intro l
  rw [get_mul, get_mul, Word.fmul_comm]

/-- The factors of a multiply-add can be exchanged in the lanes that the dialect leaves alone. -/
theorem get_mad_exchange {d : Dialect} {l : Lane} (h : d.factorLane l = l) :
    (mad d sat a b c).get l = (mad d sat b a c).get l := by
  rw [get_mad, get_mad, get_factor, get_factor, h, Word.fmulAdd, Word.fmulAdd, Word.fmul_comm]

/-! ## Both signs -/

theorem mul_negate_negate : mul sat (negate a) (negate b) = mul sat a b := by
  apply Quad.ext_get
  intro l
  rw [get_mul, get_mul, get_negate, get_negate, Word.fmul_negate_negate]

theorem div_negate_negate : div sat (negate a) (negate b) = div sat a b := by
  apply Quad.ext_get
  intro l
  rw [get_div, get_div, get_negate, get_negate, Word.fdiv_negate_negate]

theorem dot_negate_negate (width : Nat) : dot width sat (negate a) (negate b) = dot width sat a b := by
  unfold dot
  simp only [get_negate, Word.fmul_negate_negate]

theorem mad_negate_negate (d : Dialect) : mad d sat (negate a) (negate b) c = mad d sat a b c := by
  apply Quad.ext_get
  intro l
  rw [get_mad, get_mad, get_factor, get_factor, get_negate, get_negate, Word.fmulAdd, Word.fmulAdd,
    Word.fmul_negate_negate]

end

/-- Exchanged operands give the same bits in sums, products, dot products and multiply-adds, there in lane
`x` only if the dialect spreads that lane. So do operands that both change their sign, except in sums. A
product and a quotient change their sign with the first operand unless they are a NaN, and a sum with both
unless it is a NaN or a zero; no result changes its kind. -/
theorem operands_exchange_and_turn (a b c : Register) :
    (∀ sat,
      add sat a b = add sat b a ∧ mul sat a b = mul sat b a ∧
      (∀ width, dot width sat a b = dot width sat b a) ∧
      ∀ d : Dialect,
        (d.bits.getLsbD 0 = false → mad d sat a b c = mad d sat b a c) ∧
        (mad d sat a b c).get .x = (mad d sat b a c).get .x) ∧
    (∀ sat,
      mul sat (negate a) (negate b) = mul sat a b ∧ div sat (negate a) (negate b) = div sat a b ∧
      (∀ width, dot width sat (negate a) (negate b) = dot width sat a b) ∧
      ∀ d : Dialect, mad d sat (negate a) (negate b) c = mad d sat a b c) ∧
    ∀ l : Lane,
      (((mul false (negate a) b).get l).kind = ((mul false a b).get l).kind ∧
        (((mul false a b).get l).kind ≠ .nan →
          (mul false (negate a) b).get l = (negate (mul false a b)).get l)) ∧
      (((div false (negate a) b).get l).kind = ((div false a b).get l).kind ∧
        (((div false a b).get l).kind ≠ .nan →
          (div false (negate a) b).get l = (negate (div false a b)).get l)) ∧
      (((add false (negate a) (negate b)).get l).kind = ((add false a b).get l).kind ∧
        (((add false a b).get l).kind ≠ .nan → ((add false a b).get l).kind ≠ .zero →
          (add false (negate a) (negate b)).get l = (negate (add false a b)).get l)) := by
  refine ⟨fun sat => ?_, fun sat => ?_, fun l => ?_⟩
  · refine ⟨add_exchange a b sat, mul_exchange a b sat, fun width => dot_comm a b width sat, fun d => ?_⟩
    refine ⟨fun hbit => ?_, get_mad_exchange a b c sat d.factorLane_x⟩
    apply Quad.ext_get
    intro l
    exact get_mad_exchange a b c sat (Dialect.factorLane_of_off hbit l)
  · exact ⟨mul_negate_negate a b sat, div_negate_negate a b sat, dot_negate_negate a b sat,
      mad_negate_negate a b c sat⟩
  · simp only [get_mul, get_div, get_add, get_negate, Word.store_false]
    refine ⟨⟨?_, Word.negate_fmul⟩, ⟨?_, Word.negate_fdiv⟩, ?_⟩
    · exact Word.kind_apply_negate (f := fun x => Word.fmul x (b.get l)) (fun _ => Word.negate_fmul) (a.get l)
    · exact Word.kind_apply_negate (f := fun x => Word.fdiv x (b.get l)) (fun _ => Word.negate_fdiv) (a.get l)
    · exact (Word.exactSum_turned _ _).stored (Word.exactSum_stored _ _) (Word.exactSum_stored _ _)

/-- The greatest finite number beside itself in lane `x`, where the product and the sum overflow. -/
theorem operands_exchange_and_turn_overflow :
    let a : Register := ⟨0x7f7fffff, 0x7f800001, 0x80000000, 0x00000001⟩
    let b : Register := ⟨0x7f7fffff, 0x3f800000, 0, 0xff800000⟩
    mad ⟨0xfffffffe⟩ true a b b = mad ⟨0xfffffffe⟩ true b a b ∧
    (mul false (negate a) b).get .x = (negate (mul false a b)).get .x ∧
    (div false (negate a) b).get .x = (negate (div false a b)).get .x ∧
    (add false (negate a) (negate b)).get .x = (negate (add false a b)).get .x := by
  intro a b
  obtain ⟨hexchange, -, hturn⟩ := operands_exchange_and_turn a b b
  obtain ⟨-, -, -, hmad⟩ := hexchange true
  obtain ⟨⟨-, hmul⟩, ⟨-, hdiv⟩, -, hadd⟩ := hturn .x
  have hproduct : (mul false a b).get .x = Word.infinity false := by decide +kernel
  have hquotient : (div false a b).get .x = Word.fone := by decide +kernel
  have hsum : (add false a b).get .x = Word.infinity false := by decide +kernel
  rw [hproduct, Word.kind_infinity] at hmul
  rw [hquotient, Word.isTwoPow_fone.kind_eq] at hdiv
  rw [hsum, Word.kind_infinity] at hadd
  exact ⟨(hmad _).1 (by decide), hmul (by decide), hdiv (by decide), hadd (by decide) (by decide)⟩

end Register

end FourLane
