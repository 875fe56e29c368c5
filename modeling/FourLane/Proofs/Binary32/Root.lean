import FourLane.Proofs.Binary32.Neighbours
import Mathlib.Data.Nat.Prime.Basic
import Mathlib.Analysis.Real.Sqrt

/-!
# The rounded square root

The library compares the radicand with the square of the middle of a step. Four times the radicand is
never that square (`four_mul_ne_middle_sq`): the middle is an odd number of half steps, so its square
has more significant bits than a word. Hence the radicand is strictly between the squares of the two
midpoints around the rounded root (`exists_root`), and no other word is as near to the exact root
(`RoundsRoot.nearest`).
-/

namespace FourLane

namespace Binary32

/-! ## Between the squares of two midpoints -/

/-- An odd number of more than twelve bits has a square of more than twenty-four significant bits. -/
theorem odd_sq_mul_ne {k i f j : Nat} (hk : 2 ^ fractionBits ≤ k) (hf : 0 < f) (hlt : f < 2 ^ 24) :
    (2 * k + 1) * (2 * k + 1) * 2 ^ i ≠ f * 2 ^ j := by
  intro heq
  have hodd : Nat.Coprime (2 * k + 1) 2 := by simp
  have hdvd : (2 * k + 1) * (2 * k + 1) ∣ f :=
    ((hodd.mul_left hodd).pow_right j).dvd_of_dvd_mul_right (heq ▸ Dvd.intro _ rfl)
  have hle : (2 * k + 1) * (2 * k + 1) ≤ f := Nat.le_of_dvd hf hdvd
  have hbig : 2 ^ fractionBits * 2 ^ fractionBits ≤ (2 * k + 1) * (2 * k + 1) :=
    Nat.mul_le_mul (by omega) (by omega)
  simp only [fractionBits] at hbig
  omega

/-- No magnitude is the square of a midpoint, both doubled: the square has too many significant
bits. -/
theorem four_mul_ne_middle_sq {k e B : Nat} (hk : 2 ^ fractionBits ≤ k) (hB : 0 < unitsOfBits B) :
    4 * (unitsOfBits B * unitsPerOne) ≠ (2 * k + 1) * 2 ^ e * ((2 * k + 1) * 2 ^ e) := by
  obtain ⟨f, d, hunits, hlt⟩ := exists_significand B
  have hf : 0 < f := Nat.pos_of_mul_pos_right (hunits ▸ hB)
  have hleft : 4 * (unitsOfBits B * unitsPerOne) = f * 2 ^ (2 + d + 149) := by
    rw [hunits, unitsPerOne, Nat.pow_add, Nat.pow_add]
    ring
  have hright : (2 * k + 1) * 2 ^ e * ((2 * k + 1) * 2 ^ e) =
      (2 * k + 1) * (2 * k + 1) * 2 ^ (e + e) := by
    rw [Nat.pow_add]
    ring
  rw [hleft, hright]
  exact (odd_sq_mul_ne hk hf hlt).symm

/-- The root of a magnitude has all the bits of a significand: its steps are not units. -/
theorem two_pow_le_steps {n : Nat} (hn : unitsPerOne ≤ n) :
    2 ^ fractionBits ≤ floorSqrt n / (1 * spacing (floorSqrt n / 1)) := by
  have hroot : 2 ^ 74 ≤ floorSqrt n := by
    by_contra hlt
    have hle : floorSqrt n + 1 ≤ 2 ^ 74 := Nat.lt_of_not_le hlt
    have hbound := (floorSqrt_bounds n).2.trans_le (Nat.mul_le_mul hle hle)
    exact absurd (hn.trans_lt hbound) (by decide)
  refine (div_spacing_bounds (floorSqrt n) 1).1.resolve_right ?_
  have hne : floorSqrt n ≠ 0 := (Nat.two_pow_pos 74).trans_le hroot |>.ne'
  have hlog : 74 ≤ (floorSqrt n).log2 := (Nat.le_log2 hne).2 hroot
  rw [Nat.div_one, fractionBits]
  omega

/-- A midpoint has a lesser square than the magnitude after it. -/
theorem midpoint_sq_lt {c n : Nat} (h : unitsOfBits (c + 1) ^ 2 ≤ n) : midpoint c ^ 2 < (n : ℚ) := by
  have hpos : 0 ≤ midpoint c := (Nat.cast_nonneg _).trans (lt_midpoint c).1.le
  calc midpoint c ^ 2 < (unitsOfBits (c + 1) : ℚ) ^ 2 :=
        pow_lt_pow_left₀ (lt_midpoint c).2 hpos two_ne_zero
    _ ≤ n := by exact_mod_cast h

/-- A midpoint has a greater square than the magnitude before it. -/
theorem lt_midpoint_sq {b n : Nat} (h : n ≤ unitsOfBits b ^ 2) : (n : ℚ) < midpoint b ^ 2 := by
  calc (n : ℚ) ≤ (unitsOfBits b : ℚ) ^ 2 := by exact_mod_cast h
    _ < midpoint b ^ 2 := pow_lt_pow_left₀ (lt_midpoint b).1 (Nat.cast_nonneg _) two_ne_zero

/-- The root that the library rounds is a magnitude, and lies strictly between the midpoints around
it. -/
theorem exists_root {B : Nat} (hB : 0 < B) :
    ∃ b, roundSqrt (unitsOfBits B * unitsPerOne) = unitsOfBits b ∧
      (∀ c, c + 1 = b → midpoint c ^ 2 < (unitsOfBits B * unitsPerOne : Nat)) ∧
      ((unitsOfBits B * unitsPerOne : Nat) : ℚ) < midpoint b ^ 2 := by
  have hunits : 0 < unitsOfBits B := (unitsOfBits_strictMono hB).trans_le' (Nat.zero_le _)
  obtain ⟨n, hn⟩ : ∃ n, n = unitsOfBits B * unitsPerOne := ⟨_, rfl⟩
  have hsteps := two_pow_le_steps (hn ▸ Nat.le_mul_of_pos_left unitsPerOne hunits : unitsPerOne ≤ n)
  obtain ⟨hlow, hhigh⟩ := floorSqrt_bounds n
  obtain ⟨b, e, k, hspacing, hk, hb, hnext, -⟩ := exists_steps (floorSqrt n) 1
  rw [hspacing, ← hk] at hsteps
  rw [Nat.one_mul] at hk
  rw [Nat.div_one] at hspacing
  have hstep : 0 < 2 ^ e := Nat.two_pow_pos e
  -- The root is at least `k` steps and less than one step more.
  have hle : unitsOfBits b ^ 2 ≤ n := by
    have hroot : unitsOfBits b ≤ floorSqrt n := by
      rw [hb, hk]
      exact Nat.div_mul_le_self ..
    rw [Nat.pow_two]
    exact (Nat.mul_le_mul hroot hroot).trans hlow
  have hlt : n ≤ unitsOfBits (b + 1) ^ 2 := by
    have hroot : floorSqrt n + 1 ≤ unitsOfBits (b + 1) := by
      rw [hnext, hk, Nat.succ_le_iff, ← Nat.div_lt_iff_lt_mul hstep]
      exact Nat.lt_succ_self _
    rw [Nat.pow_two]
    exact (hhigh.trans_le (Nat.mul_le_mul hroot hroot)).le
  have hmiddle : 4 * midpoint b ^ 2 = ((2 * k + 1) * 2 ^ e * ((2 * k + 1) * 2 ^ e) : Nat) := by
    rw [midpoint, hb, hnext]
    push_cast
    ring
  have hround : roundSqrt n = if (2 * k + 1) * 2 ^ e * ((2 * k + 1) * 2 ^ e) < 4 * n then
      unitsOfBits (b + 1) else unitsOfBits b := by
    rw [hb, hnext, roundSqrt, hspacing, ← hk]
  have hne := four_mul_ne_middle_sq (e := e) hsteps hunits
  rw [← hn] at hne ⊢
  rw [hround]
  -- The library compares four times the square of the midpoint, and they are never equal.
  split
  · rename_i hside
    have hside' : 4 * midpoint b ^ 2 < 4 * (n : ℚ) := by
      rw [hmiddle]
      exact_mod_cast hside
    refine ⟨b + 1, rfl, fun c hc => ?_, lt_midpoint_sq hlt⟩
    obtain rfl := Nat.succ_injective hc
    linarith
  · rename_i hside
    have hside' : 4 * (n : ℚ) < 4 * midpoint b ^ 2 := by
      rw [hmiddle]
      exact_mod_cast (Nat.le_of_not_lt hside).lt_of_ne hne
    refine ⟨b, rfl, ?_, by linarith⟩
    rintro c rfl
    exact midpoint_sq_lt hle

/-- The root of a magnitude is between the roots of `2 ^ -150` and of `2 ^ 128`: it is neither small
nor large for a word. -/
theorem root_bits {B b : Nat} (hB : 0 < B) (hfin : B < infinityBits)
    (hlow : ∀ c, c + 1 = b → midpoint c ^ 2 < (unitsOfBits B * unitsPerOne : Nat))
    (hhigh : ((unitsOfBits B * unitsPerOne : Nat) : ℚ) < midpoint b ^ 2) :
    52 * 2 ^ 23 ≤ b ∧ b ≤ 191 * 2 ^ 23 := by
  have hunits : 0 < unitsOfBits B := (unitsOfBits_strictMono hB).trans_le' (Nat.zero_le _)
  have hover : unitsOfBits B < overflowUnits := unitsOfBits_infinityBits ▸ unitsOfBits_strictMono hfin
  have hleast : unitsOfBits (52 * 2 ^ 23) = 2 ^ 74 := by decide
  have hmost : unitsOfBits (191 * 2 ^ 23) = 2 ^ 213 := by decide
  constructor
  · by_contra hlt
    have hunit : unitsOfBits (b + 1) ≤ 2 ^ 74 :=
      (unitsOfBits_strictMono.monotone (not_le.1 hlt)).trans_eq hleast
    have hone : unitsOfBits (b + 1) ^ 2 ≤ unitsOfBits B * unitsPerOne :=
      calc unitsOfBits (b + 1) ^ 2 ≤ (2 ^ 74) ^ 2 := Nat.pow_le_pow_left hunit 2
        _ ≤ unitsPerOne := by decide
        _ ≤ unitsOfBits B * unitsPerOne := Nat.le_mul_of_pos_left _ hunits
    exact (midpoint_sq_lt hone).not_gt hhigh
  · by_contra hlt
    obtain ⟨c, rfl⟩ : ∃ c, b = c + 1 := ⟨b - 1, by omega⟩
    have hunit : 2 ^ 213 ≤ unitsOfBits c :=
      hmost.symm.trans_le (unitsOfBits_strictMono.monotone (by omega))
    have hover : unitsOfBits B * unitsPerOne ≤ unitsOfBits c ^ 2 :=
      calc unitsOfBits B * unitsPerOne ≤ overflowUnits * unitsPerOne :=
            Nat.mul_le_mul_right _ hover.le
        _ = (2 ^ 213) ^ 2 := by decide +kernel
        _ ≤ unitsOfBits c ^ 2 := Nat.pow_le_pow_left hunit 2
    exact (lt_midpoint_sq hover).not_gt (hlow c rfl)

end Binary32

namespace Word

/-! ## The root of a word -/

/-- `r` is the square root of `x` rounded to nearest. A square root is no midpoint, so `x` is strictly
between the squares of the midpoints that separate `r` from its neighbours. -/
structure RoundsRoot (x : ℚ) (r : Word) : Prop where
  sign : r.msb = false
  normal : r.IsNormal
  lower : ∃ p, Next p r ∧ ((p.rational + r.rational) / 2) ^ 2 < x
  upper : ∃ s, Next r s ∧ x < ((r.rational + s.rational) / 2) ^ 2

theorem midpoint_signed {b : Nat} (h : b + 1 < Binary32.infinityBits) :
    ((Binary32.signed false b).rational + (Binary32.signed false (b + 1)).rational) / 2 =
      Binary32.midpoint b / Binary32.unitsPerOne := by
  rw [rational_signed_false (b.lt_succ_self.trans h), rational_signed_false h, Binary32.midpoint]
  ring

/-- The root of a positive word is a magnitude far from both ends of the range, and the word lies
strictly between the squares of the midpoints around it. -/
theorem exists_bits_fsqrt {x : Word} (hfin : x.IsFinite) (hsign : x.msb = false)
    (hrat : x.rational ≠ 0) :
    ∃ b, fsqrt x = Binary32.signed false (b + 1) ∧ 52 * 2 ^ 23 ≤ b + 1 ∧ b + 1 ≤ 191 * 2 ^ 23 ∧
      (Binary32.midpoint b / Binary32.unitsPerOne) ^ 2 < x.rational ∧
      x.rational < (Binary32.midpoint (b + 1) / Binary32.unitsPerOne) ^ 2 := by
  have hunits := mt x.rational_eq_zero_iff.2 hrat
  have hpos : 0 < x.magnitude := by
    refine Nat.pos_of_ne_zero fun hzero => hunits ?_
    rw [hzero]
    decide
  obtain ⟨b, hround, hlow, hhigh⟩ := Binary32.exists_root hpos
  obtain ⟨hleast, hmost⟩ := Binary32.root_bits hpos ((isFinite_iff x).1 hfin) hlow hhigh
  obtain ⟨c, rfl⟩ : ∃ c, b = c + 1 := ⟨b - 1, by omega⟩
  have hone := Binary32.cast_unitsPerOne_pos
  -- Counted in units, the radicand has the unit twice.
  have hsq : x.rational * (Binary32.unitsPerOne : ℚ) ^ 2 =
      (Binary32.unitsOfBits x.magnitude * Binary32.unitsPerOne : Nat) := by
    rw [rational_of_positive hsign]
    push_cast
    field_simp
  refine ⟨c, ?_, hleast, hmost, ?_, ?_⟩
  · rw [fsqrt, ofWord_of_isFinite hfin, hsign]
    dsimp only [Binary32.sqrt]
    rw [if_neg hunits, if_neg Bool.false_ne_true, hround, Binary32.toWord_finite]
  · rw [div_pow, div_lt_iff₀ (by positivity), hsq]
    exact hlow c rfl
  · rw [div_pow, lt_div_iff₀ (by positivity), hsq]
    exact hhigh

/-- The library stores the root that is nearest to the exact one. -/
theorem roundsRoot_fsqrt {x : Word} (hfin : x.IsFinite) (hsign : x.msb = false)
    (hrat : x.rational ≠ 0) : RoundsRoot x.rational (fsqrt x) := by
  obtain ⟨b, hroot, hleast, hmost, hlow, hhigh⟩ := exists_bits_fsqrt hfin hsign hrat
  have hnext : b + 1 + 1 < Binary32.infinityBits := by
    unfold Binary32.infinityBits
    omega
  have hlast : b + 1 < Binary32.infinityBits := (Nat.lt_succ_self _).trans hnext
  rw [hroot]
  refine ⟨msb_signed _ (lt_signWeight hlast), ?_, ⟨_, next_signed hlast, ?_⟩, ⟨_, next_signed hnext, ?_⟩⟩
  · have hfields := magnitude_eq (Binary32.signed false (b + 1))
    have hfraction := (Binary32.signed false (b + 1)).fields_lt.2
    rw [magnitude_signed _ (lt_signWeight hlast)] at hfields
    unfold IsNormal
    omega
  · rwa [midpoint_signed hlast]
  · rwa [midpoint_signed hnext]

/-- A root is far from both ends of the line. -/
theorem rational_fsqrt_mem {x : Word} (hfin : x.IsFinite) (hsign : x.msb = false)
    (hrat : x.rational ≠ 0) :
    (2 : ℚ) ^ (-75 : ℤ) ≤ (fsqrt x).rational ∧ (fsqrt x).rational ≤ 2 ^ (64 : ℤ) := by
  obtain ⟨b, hroot, hleast, hmost, -⟩ := exists_bits_fsqrt hfin hsign hrat
  have hlast : b + 1 < Binary32.infinityBits := by
    unfold Binary32.infinityBits
    omega
  have hlow : Binary32.unitsOfBits (52 * 2 ^ 23) = 2 ^ 74 := by decide
  have hhigh : Binary32.unitsOfBits (191 * 2 ^ 23) = 2 ^ 213 := by decide
  have hdown : (2 : ℚ) ^ (-75 : ℤ) = (2 ^ 74 : Nat) / (Binary32.unitsPerOne : ℚ) := by
    rw [Binary32.unitsPerOne]
    norm_num
  have hup : (2 : ℚ) ^ (64 : ℤ) = (2 ^ 213 : Nat) / (Binary32.unitsPerOne : ℚ) := by
    rw [Binary32.unitsPerOne]
    norm_num
  rw [hroot, rational_signed_false hlast, hdown, hup, ← hlow, ← hhigh]
  exact ⟨units_div_le hleast, units_div_le hmost⟩

/-! ## Nearest to the exact root -/

/-- Every other number of a word is farther from the exact root. -/
theorem RoundsRoot.nearest {x : ℚ} {r : Word} (h : RoundsRoot x r) (u : Word) (hu : u.IsFinite)
    (hne : u.rational ≠ r.rational) :
    |(r.rational : ℝ) - √x| < |(u.rational : ℝ) - √x| := by
  obtain ⟨p, hp, hlow⟩ := h.lower
  obtain ⟨s, hs, hhigh⟩ := h.upper
  have hlow' : (((p.rational + r.rational) / 2 : ℚ) : ℝ) < √x :=
    Real.lt_sqrt_of_sq_lt (by exact_mod_cast hlow)
  have hhigh' : √x < (((r.rational + s.rational) / 2 : ℚ) : ℝ) := by
    have hpos : 0 < (r.rational + s.rational) / 2 := by
      linarith [rational_nonneg h.sign, hs.lt]
    rw [Real.sqrt_lt' (Rat.cast_pos.2 hpos)]
    exact_mod_cast hhigh
  rcases hp.gap u hu with hbelow | habove
  · have hur : u.rational < r.rational := hbelow.trans_lt hp.lt
    refine abs_sub_lt_of_middle_lt (by exact_mod_cast hur) (lt_of_le_of_lt ?_ hlow')
    push_cast
    have : (u.rational : ℝ) ≤ p.rational := by exact_mod_cast hbelow
    linarith
  · have hru : r.rational < u.rational := habove.lt_of_ne hne.symm
    have hsu : (s.rational : ℝ) ≤ u.rational := by
      exact_mod_cast (hs.gap u hu).resolve_left hru.not_ge
    refine abs_sub_lt_of_lt_middle (by exact_mod_cast hru) (lt_of_lt_of_le hhigh' ?_)
    push_cast
    linarith

theorem RoundsRoot.unique {x : ℚ} {r r' : Word} (h : RoundsRoot x r) (h' : RoundsRoot x r') : r = r' := by
  refine eq_of_rational_eq (h.sign.trans h'.sign.symm) ?_
  by_contra hne
  exact (h.nearest r' h'.normal.2 (Ne.symm hne)).asymm (h'.nearest r h.normal.2 hne)

end Word

end FourLane
