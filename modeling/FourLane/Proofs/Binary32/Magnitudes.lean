import FourLane.Binary32.Arithmetic
import Mathlib.Algebra.Order.Field.Basic
import Mathlib.Data.Rat.Cast.Order
import Mathlib.Order.Monotone.Basic
import Mathlib.Tactic.FieldSimp
import Mathlib.Tactic.Linarith
import Mathlib.Tactic.NormNum
import Mathlib.Tactic.Ring

/-!
# Magnitudes and their neighbours

The bits below the sign count magnitudes in order: the next bits are the next magnitude, one spacing
further (`unitsOfBits_succ`), and infinity would be the one after the last. So a number of units
lies between two neighbours, and `RoundsTo` says by the midpoints around a magnitude that it is the
one to round to. `exists_roundsTo` shows it of the library's rounding; that nothing is nearer
(`RoundsTo.nearest`), that larger numbers go to larger magnitudes (`RoundsTo.mono`) and where
overflow begins (`RoundsTo.lt_infinityBits_iff`) follow from the midpoints alone.
-/

namespace FourLane.Binary32

/-! ## One after the other -/

/-- Within a spacing of `2 ^ e` units the bits count steps; after the last step the spacing doubles. -/
theorem unitsOfBits_steps {e m : Nat} (hlow : 2 ^ fractionBits ≤ m ∨ e = 0)
    (hhigh : m ≤ 2 ^ (fractionBits + 1)) :
    unitsOfBits (e * 2 ^ fractionBits + m) = m * 2 ^ e := by
  simp only [fractionBits] at hlow hhigh
  rcases hhigh.eq_or_lt with rfl | hlt
  · -- A significand of twenty-five bits is written as the first one of the next spacing.
    have hdoublings : (e * 2 ^ 23 + 2 ^ (23 + 1)) / 2 ^ 23 - 1 = e + 1 := by omega
    have hrest : e * 2 ^ 23 + 2 ^ (23 + 1) - (e + 1) * 2 ^ 23 = 2 ^ 23 := by omega
    simp only [unitsOfBits, fractionBits, hdoublings, hrest]
    ring
  · have hdoublings : (e * 2 ^ 23 + m) / 2 ^ 23 - 1 = e := by omega
    simp only [unitsOfBits, fractionBits, hdoublings, Nat.add_sub_cancel_left]

/-- The step from a magnitude to the next is one unit of its exponent. -/
theorem unitsOfBits_succ (b : Nat) :
    unitsOfBits (b + 1) = unitsOfBits b + 2 ^ (b / 2 ^ fractionBits - 1) := by
  obtain ⟨e, he⟩ : ∃ e, e = b / 2 ^ fractionBits - 1 := ⟨_, rfl⟩
  obtain ⟨m, hm⟩ : ∃ m, m = b - e * 2 ^ fractionBits := ⟨_, rfl⟩
  have hb : b = e * 2 ^ fractionBits + m := by
    simp only [fractionBits] at he hm ⊢
    omega
  have hrange : (2 ^ fractionBits ≤ m ∨ e = 0) ∧ m < 2 ^ (fractionBits + 1) := by
    simp only [fractionBits] at he hm ⊢
    omega
  rw [← he, hb, Nat.add_assoc, unitsOfBits_steps hrange.1 hrange.2.le,
    unitsOfBits_steps (hrange.1.imp_left fun h => h.trans (Nat.le_succ m)) hrange.2, Nat.succ_mul]

theorem unitsOfBits_strictMono : StrictMono unitsOfBits := by
  refine strictMono_nat_of_lt_succ fun b => ?_
  rw [unitsOfBits_succ]
  exact Nat.lt_add_of_pos_right (Nat.two_pow_pos _)

theorem unitsOfBits_infinityBits : unitsOfBits infinityBits = overflowUnits := by decide +kernel

/-- The place halfway between a magnitude and the next one. -/
def midpoint (b : Nat) : ℚ := ((unitsOfBits b : ℚ) + unitsOfBits (b + 1)) / 2

theorem lt_midpoint (b : Nat) : (unitsOfBits b : ℚ) < midpoint b ∧ midpoint b < unitsOfBits (b + 1) := by
  have h : (unitsOfBits b : ℚ) < unitsOfBits (b + 1) :=
    Nat.cast_lt.2 (unitsOfBits_strictMono b.lt_succ_self)
  unfold midpoint
  constructor <;> linarith

theorem midpoint_strictMono : StrictMono midpoint :=
  strictMono_nat_of_lt_succ fun b => (lt_midpoint b).2.trans (lt_midpoint (b + 1)).1

/-! ## The magnitude to round to -/

/-- The bits `b` are those of the magnitude next to `q` units: `q` is between the midpoints on either
side of it, and on a midpoint only if `b` is even. -/
structure RoundsTo (q : ℚ) (b : Nat) : Prop where
  lower : ∀ c, c + 1 = b → midpoint c ≤ q
  upper : q ≤ midpoint b
  tie : (q = midpoint b ∨ ∃ c, c + 1 = b ∧ q = midpoint c) → Even b

/-- From below: at most halfway, and halfway only from an even magnitude. -/
theorem RoundsTo.of_le {q : ℚ} {b : Nat} (hle : unitsOfBits b ≤ q)
    (h : q < midpoint b ∨ q = midpoint b ∧ Even b) : RoundsTo q b := by
  have hbefore : ∀ c, c + 1 = b → midpoint c < q := by
    rintro c rfl
    exact (lt_midpoint c).2.trans_le hle
  refine ⟨fun c hc => (hbefore c hc).le, h.elim le_of_lt fun h => h.1.le, ?_⟩
  rintro (heq | ⟨c, hc, heq⟩)
  · exact (h.resolve_left heq.not_lt).2
  · exact absurd heq (hbefore c hc).ne'

/-- From above: at least halfway, and halfway only to an even magnitude. -/
theorem RoundsTo.of_lt {q : ℚ} {b : Nat} (hlt : q < unitsOfBits (b + 1))
    (h : midpoint b < q ∨ q = midpoint b ∧ Even (b + 1)) : RoundsTo q (b + 1) := by
  have hafter : q < midpoint (b + 1) := hlt.trans (lt_midpoint (b + 1)).1
  refine ⟨?_, hafter.le, ?_⟩
  · rintro c hc
    obtain rfl := Nat.succ_injective hc
    exact h.elim le_of_lt fun h => h.1.ge
  · rintro (heq | ⟨c, hc, heq⟩)
    · exact absurd heq hafter.ne
    · obtain rfl := Nat.succ_injective hc
      exact (h.resolve_left heq.not_gt).2

/-! ## Rounding a quotient -/

/-- A quotient is twenty-four significant bits of steps, or fewer if the step is one unit. -/
theorem div_spacing_bounds (num den : Nat) :
    let steps := num / (den * spacing (num / den))
    (2 ^ fractionBits ≤ steps ∨ (num / den).log2 - fractionBits = 0) ∧
      steps < 2 ^ (fractionBits + 1) := by
  intro steps
  obtain ⟨f, hf⟩ : ∃ f, f = num / den := ⟨_, rfl⟩
  have hsteps : steps = f / spacing f := by rw [hf, Nat.div_div_eq_div_mul]
  rw [hsteps, ← hf, spacing]
  have hlt : f < 2 ^ (f.log2 + 1) := Nat.lt_log2_self
  rcases Nat.lt_or_ge f.log2 fractionBits with hsmall | hlarge
  · have hnone : f.log2 - fractionBits = 0 := by omega
    rw [hnone, Nat.pow_zero, Nat.div_one]
    exact ⟨.inr rfl, hlt.trans_le (Nat.pow_le_pow_right (by decide) (by omega))⟩
  · have hne : f ≠ 0 := by
      rintro rfl
      simp [fractionBits] at hlarge
    have hle : 2 ^ f.log2 ≤ f := Nat.log2_self_le hne
    rw [Nat.le_div_iff_mul_le (Nat.two_pow_pos _), Nat.div_lt_iff_lt_mul (Nat.two_pow_pos _),
      ← Nat.pow_add, ← Nat.pow_add]
    rw [show fractionBits + (f.log2 - fractionBits) = f.log2 by omega,
      show fractionBits + 1 + (f.log2 - fractionBits) = f.log2 + 1 by omega]
    exact ⟨.inl hle, hlt⟩

/-- The whole steps in a quotient make up a magnitude, and one step more the next magnitude. -/
theorem exists_steps (num den : Nat) :
    ∃ b e k : Nat, spacing (num / den) = 2 ^ e ∧ k = num / (den * 2 ^ e) ∧
      unitsOfBits b = k * 2 ^ e ∧ unitsOfBits (b + 1) = (k + 1) * 2 ^ e ∧ (Even b ↔ Even k) := by
  obtain ⟨hlow, hhigh⟩ := div_spacing_bounds num den
  obtain ⟨e, he⟩ : ∃ e, e = (num / den).log2 - fractionBits := ⟨_, rfl⟩
  have hspacing : spacing (num / den) = 2 ^ e := by rw [spacing, he]
  obtain ⟨k, hk⟩ : ∃ k, k = num / (den * 2 ^ e) := ⟨_, rfl⟩
  rw [← he, hspacing, ← hk] at hlow
  rw [hspacing, ← hk] at hhigh
  refine ⟨e * 2 ^ fractionBits + k, e, k, hspacing, hk, unitsOfBits_steps hlow hhigh.le, ?_, ?_⟩
  · rw [Nat.add_assoc, unitsOfBits_steps (hlow.imp_left fun h => h.trans k.le_succ) hhigh]
  · have hshift : Even (e * 2 ^ fractionBits) := Even.mul_left (by decide) e
    rw [Nat.even_add, iff_true_intro hshift, true_iff]

/-- Which neighbour is chosen, by twice the numerator and the odd multiple of the denominator that
stands for the middle. -/
theorem nearestEven_cases (num den : Nat) :
    let k := num / den
    nearestEven num den = k ∧ (2 * num < (2 * k + 1) * den ∨ 2 * num = (2 * k + 1) * den ∧ Even k) ∨
      nearestEven num den = k + 1 ∧
        ((2 * k + 1) * den < 2 * num ∨ 2 * num = (2 * k + 1) * den ∧ Even (k + 1)) := by
  intro k
  have hdiv : den * k + num % den = num := Nat.div_add_mod num den
  have hmiddle : (2 * k + 1) * den = 2 * (den * k) + den := by ring
  rw [hmiddle]
  unfold nearestEven
  dsimp only
  split_ifs with hlow hhigh
  · exact .inl ⟨rfl, .inl (by omega)⟩
  · exact .inr ⟨rfl, .inl (by omega)⟩
  · rcases Nat.even_or_odd k with heven | hodd
    · refine .inl ⟨?_, .inr ⟨by omega, heven⟩⟩
      rw [Nat.even_iff.1 heven, Nat.add_zero]
    · refine .inr ⟨?_, .inr ⟨by omega, hodd.add_one⟩⟩
      rw [Nat.odd_iff.1 hodd]

/-- The quotient that the library rounds is a magnitude, and the nearest one. -/
theorem exists_roundsTo (num : Nat) {den : Nat} (h : 0 < den) :
    ∃ b, roundUnits num den = unitsOfBits b ∧ RoundsTo ((num : ℚ) / den) b := by
  obtain ⟨b, e, k, hspacing, hk, hunits, hnext, heven⟩ := exists_steps num den
  have hden : (0 : ℚ) < den := Nat.cast_pos.2 h
  have hstep : 0 < den * 2 ^ e := Nat.mul_pos h (Nat.two_pow_pos e)
  have hle : (unitsOfBits b : ℚ) ≤ num / den := by
    have hfloor : k * 2 ^ e * den ≤ num := by
      rw [Nat.mul_assoc, Nat.mul_comm (2 ^ e), hk]
      exact Nat.div_mul_le_self ..
    rw [hunits, le_div_iff₀ hden]
    exact_mod_cast hfloor
  have hlt : (num : ℚ) / den < unitsOfBits (b + 1) := by
    have hceil : num < (k + 1) * 2 ^ e * den := by
      rw [Nat.mul_assoc, Nat.mul_comm (2 ^ e), ← Nat.div_lt_iff_lt_mul hstep, ← hk]
      exact k.lt_succ_self
    rw [hnext, div_lt_iff₀ hden]
    exact_mod_cast hceil
  -- Over the common denominator `2 * den` the quotient and the midpoint are whole numbers.
  have htwo : (0 : ℚ) < 2 * den := mul_pos two_pos hden
  have hquot : (num : ℚ) / den = ((2 * num : Nat) : ℚ) / (2 * den) := by
    push_cast
    exact (mul_div_mul_left _ _ two_ne_zero).symm
  have hmid : midpoint b = (((2 * k + 1) * (den * 2 ^ e) : Nat) : ℚ) / (2 * den) := by
    rw [midpoint, hunits, hnext]
    push_cast
    field_simp
    ring
  rw [roundUnits, hspacing]
  rcases nearestEven_cases num (den * 2 ^ e) with ⟨hround, hside⟩ | ⟨hround, hside⟩ <;>
    rw [← hk] at hround hside
  · refine ⟨b, by rw [hround, hunits], .of_le hle ?_⟩
    rw [hquot, hmid, div_lt_div_iff_of_pos_right htwo, div_left_inj' htwo.ne', heven]
    exact_mod_cast hside
  · refine ⟨b + 1, by rw [hround, hnext], .of_lt hlt ?_⟩
    rw [hquot, hmid, div_lt_div_iff_of_pos_right htwo, div_left_inj' htwo.ne', Nat.even_add_one,
      heven, ← Nat.even_add_one]
    exact_mod_cast hside

/-! ## What being rounded to means -/

theorem RoundsTo.mono {p q : ℚ} {b c : Nat} (hb : RoundsTo p b) (hc : RoundsTo q c) (h : p ≤ q) :
    b ≤ c := by
  by_contra hlt
  obtain ⟨a, rfl⟩ := Nat.exists_eq_succ_of_ne_zero (Nat.ne_zero_of_lt (not_le.1 hlt))
  have hca : c ≤ a := Nat.le_of_lt_succ (not_le.1 hlt)
  have hlow := hb.lower a rfl
  have hmid := midpoint_strictMono.monotone hca
  -- Both numbers are at the midpoint between `c` and its successor, so both bits are even.
  have hmeet : midpoint a = midpoint c := le_antisymm (hlow.trans (h.trans hc.upper)) hmid
  obtain rfl := midpoint_strictMono.injective hmeet
  have heven : Even (a + 1) := hb.tie (.inr ⟨a, rfl, le_antisymm (h.trans hc.upper) hlow⟩)
  exact Nat.even_add_one.1 heven (hc.tie (.inl (le_antisymm hc.upper (hlow.trans h))))

theorem RoundsTo.unique {q : ℚ} {b c : Nat} (hb : RoundsTo q b) (hc : RoundsTo q c) : b = c :=
  (hb.mono hc le_rfl).antisymm (hc.mono hb le_rfl)

theorem roundsTo_unitsOfBits (b : Nat) : RoundsTo (unitsOfBits b) b :=
  .of_le le_rfl (.inl (lt_midpoint b).1)

theorem exists_roundsTo_of_nonneg {q : ℚ} (hq : 0 ≤ q) : ∃ b, RoundsTo q b := by
  obtain ⟨b, -, hb⟩ := exists_roundsTo q.num.toNat q.den_pos
  have hnum : ((q.num.toNat : Nat) : ℚ) = q.num := by
    exact_mod_cast Int.toNat_of_nonneg (Rat.num_nonneg.2 hq)
  rw [hnum, Rat.num_div_den] at hb
  exact ⟨b, hb⟩

/-- What lies between two numbers that go to one magnitude goes there as well. -/
theorem RoundsTo.between {p q r : ℚ} {b : Nat} (hp : RoundsTo p b) (hr : RoundsTo r b) (h₀ : 0 ≤ p)
    (hpq : p ≤ q) (hqr : q ≤ r) : RoundsTo q b := by
  obtain ⟨c, hc⟩ := exists_roundsTo_of_nonneg (h₀.trans hpq)
  rwa [← (hp.mono hc hpq).antisymm (hc.mono hr hqr)] at hc

/-- Overflow begins at the midpoint below infinity, whose bits are even. -/
theorem RoundsTo.lt_infinityBits_iff {q : ℚ} {b : Nat} (h : RoundsTo q b) :
    b < infinityBits ↔ q < midpoint (infinityBits - 1) := by
  constructor
  · intro hb
    rcases (Nat.le_sub_one_of_lt hb).lt_or_eq with hlt | rfl
    · exact h.upper.trans_lt (midpoint_strictMono hlt)
    · refine h.upper.lt_of_ne fun heq => ?_
      exact absurd (h.tie (.inl heq)) (by decide)
  · intro hq
    by_contra hb
    obtain ⟨c, rfl⟩ : ∃ c, b = c + 1 := ⟨b - 1, by unfold infinityBits at hb; omega⟩
    exact hq.not_ge ((midpoint_strictMono.monotone (by omega)).trans (h.lower c rfl))

theorem abs_sub_le_of_le_middle {p r q : ℚ} (h : p < r) (hq : q ≤ (p + r) / 2) :
    |p - q| ≤ |r - q| ∧ (|r - q| = |p - q| → q = (p + r) / 2) := by
  have hr : |r - q| = r - q := abs_of_pos (by linarith)
  rw [hr]
  refine ⟨abs_le.2 ⟨by linarith, by linarith⟩, fun heq => ?_⟩
  rcases abs_choice (p - q) with habs | habs <;> rw [habs] at heq <;> linarith

theorem abs_sub_le_of_middle_le {p r q : ℚ} (h : p < r) (hq : (p + r) / 2 ≤ q) :
    |r - q| ≤ |p - q| ∧ (|p - q| = |r - q| → q = (p + r) / 2) := by
  have hp : |p - q| = q - p := by rw [abs_sub_comm, abs_of_pos (by linarith)]
  rw [hp]
  refine ⟨abs_le.2 ⟨by linarith, by linarith⟩, fun heq => ?_⟩
  rcases abs_choice (r - q) with habs | habs <;> rw [habs] at heq <;> linarith

/-- No magnitude is nearer to `q` than the one that `q` is rounded to, and if another is as near then
this one is even. -/
theorem RoundsTo.nearest {q : ℚ} {b : Nat} (h : RoundsTo q b) (c : Nat) :
    |(unitsOfBits b : ℚ) - q| ≤ |(unitsOfBits c : ℚ) - q| ∧
      (c ≠ b → |(unitsOfBits c : ℚ) - q| = |(unitsOfBits b : ℚ) - q| → Even b) := by
  rcases lt_trichotomy c b with hlt | rfl | hlt
  · obtain ⟨a, rfl⟩ : ∃ a, b = a + 1 := ⟨b - 1, by omega⟩
    have hca : (unitsOfBits c : ℚ) ≤ unitsOfBits a :=
      Nat.cast_le.2 (unitsOfBits_strictMono.monotone (Nat.le_of_lt_succ hlt))
    have hlow : midpoint a ≤ q := h.lower a rfl
    have hstep : (unitsOfBits c : ℚ) < unitsOfBits (a + 1) := Nat.cast_lt.2 (unitsOfBits_strictMono hlt)
    -- Below `b`, the middle between `c` and `b` is at most the midpoint under `b`.
    have hmid : ((unitsOfBits c : ℚ) + unitsOfBits (a + 1)) / 2 ≤ q := by
      unfold midpoint at hlow
      linarith
    obtain ⟨hle, heq⟩ := abs_sub_le_of_middle_le hstep hmid
    refine ⟨hle, fun _ hsame => h.tie (.inr ⟨a, rfl, le_antisymm ?_ hlow⟩)⟩
    rw [heq hsame, midpoint]
    linarith
  · exact ⟨le_rfl, fun hne => absurd rfl hne⟩
  · have hbc : (unitsOfBits (b + 1) : ℚ) ≤ unitsOfBits c :=
      Nat.cast_le.2 (unitsOfBits_strictMono.monotone hlt)
    have hhigh : q ≤ midpoint b := h.upper
    have hstep : (unitsOfBits b : ℚ) < unitsOfBits c := Nat.cast_lt.2 (unitsOfBits_strictMono hlt)
    have hmid : q ≤ ((unitsOfBits b : ℚ) + unitsOfBits c) / 2 := by
      unfold midpoint at hhigh
      linarith
    obtain ⟨hle, heq⟩ := abs_sub_le_of_le_middle hstep hmid
    refine ⟨hle, fun _ hsame => h.tie (.inl (le_antisymm hhigh ?_))⟩
    rw [heq hsame, midpoint]
    linarith

end FourLane.Binary32
