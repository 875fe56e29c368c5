import FourLane.Proofs.Binary32.Sign
import FourLane.Proofs.Binary32.Integers
import FourLane.Proofs.Register.DotProducts
import FourLane.Proofs.Register.Switches
import FourLane.Proofs.Register.Unfused

/-!
# Rewrites that change no bit

Some instructions with a constant operand can be left out or replaced by cheaper ones. On every word but
the NaNs `1` is neutral for products and quotients, and the negative zero for sums. A multiply-add with a
neutral operand is the instruction that is left of it; there even a NaN comes out the same, because
arithmetic has one NaN only.

Division by a power of two is multiplication by the opposite power. No case depends on rounding, overflow
or underflow: the exact results are the same (`exactQuotient_eq_exactProduct`), and both are rounded once.
-/

namespace FourLane

namespace Word

/-! ## Powers of two -/

/-- The word denotes `2 ^ k`. -/
def IsTwoPow (k : Int) (w : Word) : Prop := w.IsFinite ∧ w.rational = (2 : ℚ) ^ k

section

variable {k : Int} {p q w : Word}

theorem IsTwoPow.pos (h : w.IsTwoPow k) : 0 < w.rational := by
  rw [h.2]
  exact zpow_pos two_pos k

theorem IsTwoPow.kind_eq (h : w.IsTwoPow k) : w.kind = .nonzero := kind_of_rational_ne_zero h.1 h.pos.ne'

theorem IsTwoPow.msb_eq (h : w.IsTwoPow k) : w.msb = false := by
  rw [msb_eq_decide_rational h.pos.ne', decide_eq_false h.pos.not_gt]

theorem isTwoPow_fone : fone.IsTwoPow 0 := ⟨by decide, by rw [rational_fone, zpow_zero]⟩

/-- A word with one bit in its significand is a power of two. -/
theorem isTwoPow_of_fields {m : Nat} (hfin : w.IsFinite) (hsign : w.msb = false)
    (hsig : w.significand = 2 ^ m) (hk : max (w.exponentField : Int) 1 + m = k + 150) : w.IsTwoPow k := by
  refine ⟨hfin, ?_⟩
  rw [rational, hsign, hsig, if_neg Bool.false_ne_true, one_mul, Nat.cast_pow, Nat.cast_ofNat,
    ← zpow_natCast, ← zpow_add₀ two_ne_zero]
  congr 1
  omega

/-- Finite magnitudes are those below `2 ^ 128`. -/
theorem units_div_lt_iff (b : Nat) :
    (Binary32.unitsOfBits b : ℚ) / Binary32.unitsPerOne < 2 ^ 128 ↔ b < Binary32.infinityBits := by
  have hover : Binary32.overflowUnits = 2 ^ 128 * Binary32.unitsPerOne := by decide +kernel
  rw [div_lt_iff₀ Binary32.cast_unitsPerOne_pos, ← Binary32.unitsOfBits_strictMono.lt_iff_lt,
    Binary32.unitsOfBits_infinityBits, hover]
  exact_mod_cast Iff.rfl

/-- The powers of two among words have these exponents. -/
theorem IsTwoPow.bounds (h : w.IsTwoPow k) : -149 ≤ k ∧ k ≤ 127 := by
  have habs := abs_rational w
  rw [abs_of_pos h.pos, h.2] at habs
  have hlow : (2 : ℚ) ^ (-149 : Int) ≤ 2 ^ k := by
    have hunits : 1 ≤ Binary32.unitsOfBits w.magnitude :=
      Nat.one_le_iff_ne_zero.2 (mt w.rational_eq_zero_iff.2 h.pos.ne')
    rw [habs, le_div_iff₀ Binary32.cast_unitsPerOne_pos, Binary32.unitsPerOne]
    exact le_trans (by norm_num) (Nat.one_le_cast.2 hunits)
  have hhigh : (2 : ℚ) ^ k < 2 ^ (128 : Int) :=
    habs.trans_lt ((units_div_lt_iff _).2 ((isFinite_iff w).1 h.1))
  rw [zpow_le_zpow_iff_right₀ one_lt_two] at hlow
  rw [zpow_lt_zpow_iff_right₀ one_lt_two] at hhigh
  omega

theorem exists_isTwoPow (hlow : -149 ≤ k) (hhigh : k ≤ 127) : ∃ w : Word, w.IsTwoPow k := by
  obtain ⟨n, hn⟩ : ∃ n : Nat, k = (n : Int) - (149 : Nat) := ⟨(k + 149).toNat, by omega⟩
  have hspacing : Binary32.spacing (2 ^ n) ∣ 2 ^ n := by
    rw [Binary32.spacing, Nat.log2_two_pow]
    exact Nat.pow_dvd_pow 2 (Nat.sub_le ..)
  obtain ⟨b, hb⟩ := Binary32.exists_bits_of_dvd hspacing
  have hquot : (Binary32.unitsOfBits b : ℚ) / Binary32.unitsPerOne = 2 ^ k := by
    rw [hb, Binary32.unitsPerOne, hn, zpow_sub₀ two_ne_zero, zpow_natCast, zpow_natCast]
    push_cast
    rfl
  have hfin : b < Binary32.infinityBits := by
    rw [← units_div_lt_iff, hquot]
    exact zpow_lt_zpow_right₀ one_lt_two (Int.lt_add_one_of_le hhigh)
  exact ⟨Binary32.signed false b, isFinite_signed hfin _, (rational_signed_false hfin).trans hquot⟩

/-- The powers of two that are numbers of words. -/
theorem exists_isTwoPow_iff (k : Int) : (∃ w : Word, w.IsTwoPow k) ↔ -149 ≤ k ∧ k ≤ 127 :=
  ⟨fun ⟨_, hw⟩ => hw.bounds, fun ⟨hlow, hhigh⟩ => exists_isTwoPow hlow hhigh⟩

/-- Both an exact quotient and an exact product have the sign of the first operand, and what is neither an
end of the line nor a zero is multiplied by one rational number. -/
theorem exactQuotient_eq_exactProduct (hp : p.IsTwoPow k) (hq : q.IsTwoPow (-k)) (x : Word) :
    exactQuotient x p = exactProduct x q := by
  rw [exactQuotient, exactProduct, hp.kind_eq, hq.kind_eq, hp.msb_eq, hq.msb_eq, hp.2, hq.2, zpow_neg,
    div_eq_mul_inv]
  cases x.kind <;> rfl

/-- Division by a power of two is multiplication by its inverse. -/
theorem fdiv_eq_fmul (hp : p.IsTwoPow k) (hq : q.IsTwoPow (-k)) (x : Word) : fdiv x p = fmul x q := by
  refine (exactQuotient_stored x p).unique ?_
  rw [exactQuotient_eq_exactProduct hp hq]
  exact exactProduct_stored x q

end

/-! ## Neutral operands -/

section

variable {x y : Word}

theorem fmul_fone (h : x.kind ≠ .nan) : fmul x fone = x := by
  refine (exactProduct_stored x fone).unique ?_
  have hx := x.reading
  rw [exactProduct, isTwoPow_fone.kind_eq, isTwoPow_fone.msb_eq, rational_fone, mul_one, Bool.xor_false]
  generalize x.kind = k, Binary32.ofWord x = d at hx h
  cases hx with
  | nan => exact absurd rfl h
  | infinite hw => exact hw
  | zero hw => exact hw
  | nonzero hfin => exact rounds_rational hfin

theorem fdiv_fone (h : x.kind ≠ .nan) : fdiv x fone = x :=
  (fdiv_eq_fmul isTwoPow_fone isTwoPow_fone x).trans (fmul_fone h)

/-- A zero is neutral, but the positive zero turns the negative one. -/
theorem fadd_zero (h : x.kind ≠ .nan) (s : Bool) :
    fadd x (zero s) = if x = zero true ∧ s = false then zero false else x := by
  by_cases hx : x = zero true
  · subst hx
    cases s <;> decide
  · have hsum : IsSum x := ⟨hx, fun hnan => absurd hnan h⟩
    simp [hsum.fadd_zero, hx]

/-- The exact product changes its sign with the second factor, unless there is none. -/
theorem exactProduct_negate (x y : Word) :
    exactProduct x y = .word quietNaN ∨ exactProduct x (negate y) = (exactProduct x y).negate := by
  unfold exactProduct
  rw [kind_negate]
  cases x.kind <;> cases y.kind <;> simp [Exact.negate, negate_infinity, negate_zero]

/-- What is stored for an exact result and for its opposite are opposite words. -/
theorem Exact.IsStoredAs.eq_negate {e e' : Exact} {w w' : Word} (hw : e.IsStoredAs w)
    (hw' : e'.IsStoredAs w') (h : e = .word quietNaN ∨ e' = e.negate) (hnan : w.kind ≠ .nan) :
    w' = Word.negate w := by
  rcases h with rfl | rfl
  · rw [show w = quietNaN from hw] at hnan
    exact absurd kind_quietNaN hnan
  · exact hw'.unique hw.negate

theorem fmul_negate (h : (fmul x y).kind ≠ .nan) : fmul x (negate y) = negate (fmul x y) :=
  (exactProduct_stored x y).eq_negate (exactProduct_stored x (negate y)) (exactProduct_negate x y) h

theorem fmul_negate_fone (h : x.kind ≠ .nan) : fmul x (negate fone) = negate x := by
  rw [fmul_negate, fmul_fone h]
  rwa [fmul_fone h]

/-! ## Multiply-add with a neutral operand -/

theorem fmul_fone_of_nan (h : x.kind = .nan) : fmul x fone = quietNaN := by
  have hstored := exactProduct_stored x fone
  rw [exactProduct, h] at hstored
  exact hstored

/-- The sum does not tell NaNs apart. -/
theorem fmulAdd_fone (x z : Word) : fmulAdd x fone z = fadd x z := by
  rw [fmulAdd]
  by_cases h : x.kind = .nan
  · rw [fmul_fone_of_nan h, fadd_comm, fadd_comm x, fadd_of_nan z kind_quietNaN, fadd_of_nan z h]
  · rw [fmul_fone h]

/-- An exact product is a NaN, an infinity, a zero or a number to be rounded. -/
theorem exactProduct_cases (x y : Word) :
    exactProduct x y = .word quietNaN ∨ (∃ s, exactProduct x y = .word (infinity s)) ∨
      (∃ s, exactProduct x y = .word (zero s)) ∨ ∃ s v, exactProduct x y = .number s v := by
  unfold exactProduct
  cases x.kind <;> cases y.kind <;> simp

/-- A product is a number or the quiet NaN. -/
theorem fmul_eq_quietNaN (h : (fmul x y).kind = .nan) : fmul x y = quietNaN := by
  have hstored := exactProduct_stored x y
  rcases exactProduct_cases x y with he | ⟨s, he⟩ | ⟨s, he⟩ | ⟨s, v, he⟩ <;> rw [he] at hstored
  · exact hstored
  · rw [show fmul x y = infinity s from hstored, kind_infinity] at h
    cases h
  · rw [show fmul x y = zero s from hstored, kind_zero] at h
    cases h
  · exact absurd h (Rounds.kind_ne_nan hstored)

theorem fmulAdd_zero (x y : Word) : fmulAdd x y (zero true) = fmul x y := by
  rw [fmulAdd]
  by_cases h : (fmul x y).kind = .nan
  · rw [fmul_eq_quietNaN h]
    decide
  · simp [fadd_zero h]

end

end Word

namespace Register

/-- Every rewrite keeps all bits of the result, with the constant in every lane. On the lanes that are
numbers `1` is neutral for products and quotients, a zero for sums if its sign is negative, and
multiplication by `-1` turns the sign around. Where lane `x` is not spread, a multiply-add by `1` or onto
the negative zero is the instruction that is left, also with the modifier. Division by a power of two is
multiplication by the opposite one, for all powers for which both are words. -/
theorem rewrites_keep_bits (a b c : Register) :
    (∀ l, (a.get l).value ≠ none →
      (mul false a (Quad.splat 0x3f800000)).get l = a.get l ∧
      (div false a (Quad.splat 0x3f800000)).get l = a.get l ∧
      (add false a (Quad.splat 0x80000000)).get l = a.get l ∧
      (add false a (Quad.splat 0)).get l = (if a.get l = 0x80000000 then 0 else a.get l) ∧
      (mul false a (Quad.splat 0xbf800000)).get l = (xor .plain a (Quad.splat 0x80000000)).get l) ∧
    (∀ (d : Dialect) (sat : Bool), d.bits.getLsbD 0 = false →
      mad d sat a (Quad.splat 0x3f800000) c = add sat a c ∧
      mad d sat a b (Quad.splat 0x80000000) = mul sat a b) ∧
    ∀ k : Int,
      ((∃ p q : Word, p.IsTwoPow k ∧ q.IsTwoPow (-k)) ↔ -127 ≤ k ∧ k ≤ 127) ∧
      ∀ p q : Word, p.IsTwoPow k → q.IsTwoPow (-k) → ∀ sat,
        div sat a (Quad.splat p) = mul sat a (Quad.splat q) := by
  refine ⟨?_, ?_, ?_⟩
  · intro l hnumber
    rw [ne_eq, Word.value_eq_none_iff] at hnumber
    simp only [get_mul, get_div, get_add, get_xor, Quad.get_splat, Word.store_false]
    refine ⟨Word.fmul_fone hnumber, Word.fdiv_fone hnumber, ?_, ?_, ?_⟩
    · exact (Word.fadd_zero hnumber true).trans (by simp)
    · exact (Word.fadd_zero hnumber false).trans (by simp [Word.zero])
    · exact (Word.fmul_negate_fone hnumber).trans (Dialect.xorWords_of_off rfl _ _).symm
  · intro d sat hbit
    have hfactor : ∀ r, factor d r = r := by
      intro r
      exact factor_of_not_has r (d.has_factorFromLaneX.trans hbit)
    constructor <;> apply Quad.ext_get <;> intro l
    · rw [get_mad, hfactor, Quad.get_splat, get_add]
      exact congrArg _ (Word.fmulAdd_fone _ _)
    · rw [get_mad, hfactor, Quad.get_splat, get_mul]
      exact congrArg _ (Word.fmulAdd_zero _ _)
  · intro k
    refine ⟨?_, ?_⟩
    -- Words reach from `2 ^ -149` to `2 ^ 127`, so the upper end bounds both exponents.
    · have hpos := Word.exists_isTwoPow_iff k
      have hneg := Word.exists_isTwoPow_iff (-k)
      simp only [exists_and_left, exists_and_right, hpos, hneg]
      omega
    · intro p q hp hq sat
      apply Quad.ext_get
      intro l
      rw [get_div, get_mul, Quad.get_splat, Quad.get_splat, Word.fdiv_eq_fmul hp hq]

/-- The least positive word divided by the greatest power of two, whose opposite has no leading one. -/
theorem rewrites_keep_bits_at_ends :
    let a : Register := ⟨0x00000001, 0x80000000, 0x7f800000, 0xffc00001⟩
    (mul false a (Quad.splat 0x3f800000)).get .x = 0x00000001 ∧
    mad .plain true a (Quad.splat 0x3f800000) a = add true a a ∧
    div false a (Quad.splat 0x7f000000) = mul false a (Quad.splat 0x00400000) := by
  intro a
  obtain ⟨hneutral, hmad, hdiv⟩ := rewrites_keep_bits a a a
  have hfin : (a.get .x).IsFinite := by decide
  have hp : (0x7f000000 : Word).IsTwoPow 127 :=
    Word.isTwoPow_of_fields (m := 23) (by decide) (by decide) (by decide) (by decide)
  have hq : (0x00400000 : Word).IsTwoPow (-127) :=
    Word.isTwoPow_of_fields (m := 22) (by decide) (by decide) (by decide) (by decide)
  refine ⟨(hneutral .x ?_).1, (hmad .plain true rfl).1, (hdiv 127).2 _ _ hp hq false⟩
  rw [Word.value_of_isFinite hfin]
  exact Option.some_ne_none _

end Register

end FourLane
