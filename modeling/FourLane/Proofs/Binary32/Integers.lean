import FourLane.Binary32.Arithmetic
import FourLane.Proofs.Binary32.Neighbours
import Mathlib.Data.Nat.Factorization.Basic
import Mathlib.Data.Nat.Size

/-!
# The integers that words denote

A word denotes an integer of its range if and only if the integer has at most twenty-four significant
bits (`exists_rational_eq`, `significantBits_le_of_rational`). From `2 ^ 23` on every word denotes an
integer (`exists_integer_of_le`). So a rounded integer is an integer (`Nearest.exists_integer`), and
is the one that was rounded if and only if its significant bits fit (`Nearest.rational_eq_iff`).
-/

namespace FourLane

/-! ## Significant bits -/

/-- The number of bits from the first one bit to the last. -/
def significantBits (n : Nat) : Nat := (n / 2 ^ n.factorization 2).size

/-- An integer has at most `t` significant bits if it is a number of `t` bits, shifted. -/
theorem significantBits_le_iff {n t : Nat} :
    significantBits n ≤ t ↔ ∃ m j, m < 2 ^ t ∧ n = m * 2 ^ j := by
  rw [significantBits, Nat.size_le]
  have hproj : 2 ^ n.factorization 2 * (n / 2 ^ n.factorization 2) = n :=
    Nat.ordProj_mul_ordCompl_eq_self n 2
  constructor
  · intro h
    exact ⟨_, _, h, by rw [Nat.mul_comm, hproj]⟩
  · rintro ⟨m, j, hm, hn⟩
    rcases Nat.eq_zero_or_pos n with rfl | hpos
    · rw [Nat.zero_div]
      exact Nat.two_pow_pos t
    · have hcoprime : Nat.Coprime (n / 2 ^ n.factorization 2) (2 ^ j) :=
        ((Nat.coprime_ordCompl Nat.prime_two hpos.ne').pow_left j).symm
      have hdvd : n / 2 ^ n.factorization 2 ∣ m * 2 ^ j :=
        hn ▸ Dvd.intro_left _ hproj
      refine (Nat.le_of_dvd ?_ (hcoprime.dvd_of_dvd_mul_right hdvd)).trans_lt hm
      exact Nat.pos_of_ne_zero fun hzero => hpos.ne' (by rw [hn, hzero, Nat.zero_mul])

theorem significantBits_le_of_lt {n t : Nat} (h : n < 2 ^ t) : significantBits n ≤ t :=
  significantBits_le_iff.2 ⟨n, 0, h, by rw [Nat.pow_zero, Nat.mul_one]⟩

namespace Binary32

/-! ## Magnitudes that are integers -/

/-- A whole number of the steps at its place is a magnitude. -/
theorem exists_bits_of_dvd {units : Nat} (h : spacing units ∣ units) : ∃ b, unitsOfBits b = units := by
  obtain ⟨b, e, k, hspacing, hk, hb, -⟩ := exists_steps units 1
  rw [Nat.div_one] at hspacing
  rw [Nat.one_mul] at hk
  refine ⟨b, ?_⟩
  rw [hb, hk, Nat.div_mul_cancel]
  rwa [← hspacing]

/-- An integer of 24 significant bits is a magnitude. -/
theorem exists_bits_of_significantBits {n : Nat} (h : significantBits n ≤ 24) :
    ∃ b, unitsOfBits b = n * unitsPerOne := by
  obtain ⟨m, j, hm, rfl⟩ := significantBits_le_iff.1 h
  have hpow : m * 2 ^ j * unitsPerOne = m * 2 ^ (j + 149) := by
    rw [unitsPerOne, Nat.mul_assoc, ← Nat.pow_add]
  rw [hpow]
  refine exists_bits_of_dvd (Dvd.dvd.mul_left (Nat.pow_dvd_pow 2 ?_) m)
  have hlt : m * 2 ^ (j + 149) < 2 ^ (24 + (j + 149)) := by
    rw [Nat.pow_add 2 24]
    exact Nat.mul_lt_mul_of_pos_right hm (Nat.two_pow_pos _)
  rcases Nat.eq_zero_or_pos (m * 2 ^ (j + 149)) with hzero | hpos
  · rw [hzero, Nat.log2_zero, Nat.zero_sub]
    exact Nat.zero_le _
  · have hlog := (Nat.log2_lt hpos.ne').2 hlt
    rw [fractionBits]
    omega

theorem significantBits_le_of_units {b n : Nat} (h : unitsOfBits b = n * unitsPerOne) :
    significantBits n ≤ 24 := by
  obtain ⟨f, d, hb, hf⟩ := exists_significand b
  rw [hb, unitsPerOne] at h
  rcases Nat.le_total 149 d with hd | hd
  · refine significantBits_le_iff.2 ⟨f, d - 149, hf, Nat.eq_of_mul_eq_mul_right (Nat.two_pow_pos 149) ?_⟩
    rw [← h, Nat.mul_assoc, ← Nat.pow_add, Nat.sub_add_cancel hd]
  · refine significantBits_le_of_lt (lt_of_le_of_lt ?_ hf)
    have hcancel : f = n * 2 ^ (149 - d) := by
      refine Nat.eq_of_mul_eq_mul_right (Nat.two_pow_pos d) ?_
      rw [h, Nat.mul_assoc, ← Nat.pow_add, Nat.sub_add_cancel hd]
    rw [hcancel]
    exact Nat.le_mul_of_pos_right _ (Nat.two_pow_pos _)

/-- Steps of less than one end below `2 ^ 23`. -/
theorem exists_nat_of_le {b : Nat} (h : 2 ^ 23 * unitsPerOne ≤ unitsOfBits b) :
    ∃ n, unitsOfBits b = n * unitsPerOne := by
  obtain ⟨f, d, hb, hf⟩ := exists_significand b
  rw [hb] at h ⊢
  rcases Nat.lt_or_ge d 149 with hd | hd
  · have hlt : f * 2 ^ d < 2 ^ 24 * 2 ^ 148 := Nat.mul_lt_mul_of_lt_of_le hf
      (Nat.pow_le_pow_right (by decide) (Nat.le_of_lt_succ hd)) (Nat.two_pow_pos _)
    exact absurd (h.trans_lt hlt) (by decide)
  · refine ⟨f * 2 ^ (d - 149), ?_⟩
    rw [unitsPerOne, Nat.mul_assoc, ← Nat.pow_add, Nat.sub_add_cancel hd]

end Binary32

namespace Word

/-! ## Words that denote integers -/

theorem exists_rational_eq {k : Int} (hbits : significantBits k.natAbs ≤ 24)
    (hk : k.natAbs < 2 ^ 128) : ∃ u : Word, u.IsFinite ∧ u.rational = k := by
  obtain ⟨b, hb⟩ := Binary32.exists_bits_of_significantBits hbits
  have hfin : b < Binary32.infinityBits := by
    rw [← Binary32.unitsOfBits_strictMono.lt_iff_lt, hb, Binary32.unitsOfBits_infinityBits]
    calc k.natAbs * Binary32.unitsPerOne < 2 ^ 128 * Binary32.unitsPerOne :=
          Nat.mul_lt_mul_of_pos_right hk Binary32.unitsPerOne_pos
      _ = Binary32.overflowUnits := by decide +kernel
  refine ⟨Binary32.signed (k < 0) b, isFinite_signed hfin _, ?_⟩
  rw [rational_eq_units, msb_signed _ (lt_signWeight hfin), magnitude_signed _ (lt_signWeight hfin), hb,
    Nat.cast_mul, mul_div_cancel_right₀ _ Binary32.cast_unitsPerOne_pos.ne', signFactor_mul_natAbs]

theorem significantBits_le_of_rational {w : Word} {k : Int} (h : w.rational = k) :
    significantBits k.natAbs ≤ 24 := by
  refine Binary32.significantBits_le_of_units (b := w.magnitude) ?_
  have habs := abs_rational w
  rw [h, eq_div_iff Binary32.cast_unitsPerOne_pos.ne', ← Int.cast_abs, Int.abs_eq_natAbs] at habs
  exact_mod_cast habs.symm

/-- From `2 ^ 23` on, all numbers of words are integers. -/
theorem exists_integer_of_le {w : Word} (h : 2 ^ 23 ≤ |w.rational|) : ∃ k : Int, w.rational = k := by
  have hone := Binary32.cast_unitsPerOne_pos
  rw [abs_rational, le_div_iff₀ hone] at h
  obtain ⟨n, hn⟩ := Binary32.exists_nat_of_le (b := w.magnitude) (by exact_mod_cast h)
  refine ⟨if w.msb then -n else n, ?_⟩
  rw [rational_eq_units, hn, Nat.cast_mul, mul_div_cancel_right₀ _ hone.ne', signFactor]
  split <;> simp

section

variable {v : ℚ} {w : Word} {j : Int} (h : Nearest v w) (hbits : significantBits j.natAbs ≤ 24)
  (hj : j.natAbs < 2 ^ 128)

include h hbits hj

/-- Rounding does not pass an integer that is a number of a word, downward. -/
theorem Nearest.le_integer (hv : j ≤ v) : j ≤ w.rational := by
  obtain ⟨u, hu, hrat⟩ := exists_rational_eq hbits hj
  rw [← hrat] at hv ⊢
  exact h.le hu hv

theorem Nearest.ge_integer (hv : v ≤ j) : w.rational ≤ j := by
  obtain ⟨u, hu, hrat⟩ := exists_rational_eq hbits hj
  rw [← hrat] at hv ⊢
  exact h.ge hu hv

end

/-! ## Integers rounded -/

theorem rounds_ofInt (k : Int) : Rounds (k < 0) k (Binary32.ofInt k).toWord := by
  refine Binary32.rounds_rounded _ _ Nat.one_pos ?_
  rw [Nat.cast_one, div_one, Nat.cast_mul, mul_div_cancel_right₀ _ Binary32.cast_unitsPerOne_pos.ne',
    signFactor_mul_natAbs]

section

variable {k : Int} {w : Word}

theorem Rounds.nearest_integer {negative : Bool} (h : Rounds negative k w) (hk : k.natAbs ≤ 2 ^ 32) :
    Nearest k w := by
  refine h.nearest ?_
  have hle : |(k : ℚ)| ≤ 2 ^ 32 := by
    rw [← Int.cast_abs, Int.abs_eq_natAbs]
    exact_mod_cast hk
  exact hle.trans_lt (by norm_num)

/-- An integer rounds to itself exactly if it has at most 24 significant bits. -/
theorem Nearest.rational_eq_iff (h : Nearest k w) (hk : k.natAbs ≤ 2 ^ 32) :
    w.rational = k ↔ significantBits k.natAbs ≤ 24 := by
  refine ⟨significantBits_le_of_rational, fun hbits => ?_⟩
  obtain ⟨u, hu, huk⟩ := exists_rational_eq hbits (hk.trans_lt (by decide))
  exact h.eq hu huk

theorem Nearest.exists_integer (h : Nearest k w) (hk : k.natAbs ≤ 2 ^ 32) :
    ∃ r : Int, w.rational = r := by
  by_cases hbits : significantBits k.natAbs ≤ 24
  · exact ⟨k, (h.rational_eq_iff hk).2 hbits⟩
  · have hlarge : 2 ^ 24 ≤ k.natAbs := not_lt.1 (mt significantBits_le_of_lt hbits)
    refine exists_integer_of_le ?_
    rcases le_total 0 k with hpos | hneg
    · have hle := h.le_integer (j := 2 ^ 23) (significantBits_le_of_lt (by decide)) (by decide)
        (by exact_mod_cast (by omega))
      exact le_trans (by exact_mod_cast hle) (le_abs_self _)
    · have hge := h.ge_integer (j := -2 ^ 23) (significantBits_le_of_lt (by decide)) (by decide)
        (by exact_mod_cast (by omega))
      refine le_trans ?_ (neg_le_abs _)
      push_cast at hge
      linarith

/-- Only zero is rounded to a zero. -/
theorem Nearest.eq_zero_of_rational (h : Nearest k w) (hzero : w.rational = 0) : k = 0 := by
  by_contra hne
  rcases Int.lt_or_gt_of_ne hne with hneg | hpos
  · have hge := h.ge_integer (j := -1) (significantBits_le_of_lt (by decide)) (by decide)
      (by exact_mod_cast (by omega))
    rw [hzero] at hge
    norm_num at hge
  · have hle := h.le_integer (j := 1) (significantBits_le_of_lt (by decide)) (by decide)
      (by exact_mod_cast hpos)
    rw [hzero] at hle
    norm_num at hle

theorem Rounds.eq_zero_iff (h : Rounds (k < 0) k w) (hk : k.natAbs ≤ 2 ^ 32) :
    w = zero false ↔ k = 0 := by
  constructor
  · rintro rfl
    exact (h.nearest_integer hk).eq_zero_of_rational (rational_zero false)
  · rintro rfl
    refine h.underflow ?_
    rw [Int.cast_zero, abs_zero]
    positivity

/-- The numbers of words up to `2 ^ 31` are at most `128` apart. -/
theorem Nearest.abs_sub_le (h : Nearest k w) (hk : k.natAbs ≤ 2 ^ 31) : |w.rational - k| ≤ 64 := by
  obtain ⟨q, hq⟩ : ∃ q, q = (k + 64) / 128 := ⟨_, rfl⟩
  have hbits : significantBits (128 * q).natAbs ≤ 24 := by
    rw [significantBits_le_iff]
    rcases (by omega : q.natAbs ≤ 2 ^ 24).eq_or_lt with heq | hlt
    · exact ⟨1, 31, by decide, by omega⟩
    · exact ⟨q.natAbs, 7, hlt, by omega⟩
  obtain ⟨u, hu, hurat⟩ := exists_rational_eq hbits (by omega)
  refine (h.least u hu).trans ?_
  rw [hurat]
  have habs : |128 * q - k| ≤ 64 := abs_le.2 ⟨by omega, by omega⟩
  exact_mod_cast habs

end

end Word

end FourLane
