import FourLane.Proofs.Register.Lanes
import Mathlib.Data.BitVec

/-!
# What a switch changes

An instruction that follows a dialect asks it for one switch: multiply-add for bit `0`, exclusive or
for bit `1`. Dialects that agree on that bit give the same result, whatever their other bits are.
Dialects that differ in it can be told apart in some lanes only: by exclusive or where the operands
share a bit (`get_xor_ne_iff`), and by integer multiply-add where the two second factors give
different products modulo `2 ^ 32` (`get_imad_ne_iff`), so never in lane `x`.
-/

namespace FourLane

/-! ## Words -/

namespace Word

/-- Or and exclusive or differ in the common bits. -/
theorem or_eq_xor_iff (x y : Word) : x ||| y = x ^^^ y ↔ x &&& y = 0 := by
  simp only [BitVec.eq_of_getLsbD_eq_iff, BitVec.getLsbD_or, BitVec.getLsbD_xor,
    BitVec.getLsbD_and, BitVec.ofNat_eq_ofNat, BitVec.getLsbD_zero]
  refine forall₂_congr fun i _ => ?_
  cases x.getLsbD i <;> cases y.getLsbD i <;> decide

/-- Two integers have one pattern exactly if they are equal modulo `2 ^ 32`. -/
theorem ofInt_eq_ofInt_iff (k k' : Int) : ofInt k = ofInt k' ↔ (2 ^ 32 : Int) ∣ k - k' := by
  rw [ofInt, ofInt, ← BitVec.toInt_inj, BitVec.toInt_ofInt, BitVec.toInt_ofInt,
    Int.bmod_eq_bmod_iff_bmod_sub_eq_zero, ← Int.dvd_iff_bmod_eq_zero]
  rfl

theorem ofInt_toNat (w : Word) : ofInt w.toNat = w := by
  rw [ofInt, BitVec.ofInt_natCast, BitVec.ofNat_toNat, BitVec.setWidth_eq]

/-- Products of one factor are the same words if the difference of the others, times it, is a
multiple of `2 ^ 32`. -/
theorem mul_add_eq_iff (k m m' : Int) (z : Word) :
    ofInt k * ofInt m + z = ofInt k * ofInt m' + z ↔ (2 ^ 32 : Int) ∣ k * (m - m') := by
  rw [add_left_inj, ofInt, ofInt, ofInt, ← BitVec.ofInt_mul, ← BitVec.ofInt_mul, Int.mul_sub]
  exact ofInt_eq_ofInt_iff (k * m) (k * m')

end Word

/-! ## Dialects -/

namespace Dialect

variable {d : Dialect}

/-- Leaving out the bits that belong to no switch leaves the switches as they are. -/
theorem has_truncate (d : Dialect) (s : Switch) : d.truncate.has s = d.has s := by
  cases s with
  | factorFromLaneX =>
    rw [has_factorFromLaneX, has_factorFromLaneX, truncate, BitVec.getLsbD_and,
      show known.getLsbD 0 = true from rfl, Bool.and_true]
  | xorIsOr =>
    rw [has_xorIsOr, has_xorIsOr, truncate, BitVec.getLsbD_and,
      show known.getLsbD 1 = true from rfl, Bool.and_true]

theorem xorWords_of_on (h : d.bits.getLsbD 1 = true) (x y : Word) : d.xorWords x y = x ||| y := by
  rw [← has_xorIsOr] at h
  exact if_pos h

theorem xorWords_of_off (h : d.bits.getLsbD 1 = false) (x y : Word) : d.xorWords x y = x ^^^ y := by
  rw [← has_xorIsOr] at h
  exact if_neg (Bool.eq_false_iff.1 h)

theorem factorLane_of_on (h : d.bits.getLsbD 0 = true) (l : Lane) : d.factorLane l = .x := by
  rw [← has_factorFromLaneX] at h
  exact if_pos h

theorem factorLane_of_off (h : d.bits.getLsbD 0 = false) (l : Lane) : d.factorLane l = l := by
  rw [← has_factorFromLaneX] at h
  exact if_neg (Bool.eq_false_iff.1 h)

theorem factorLane_x (d : Dialect) : d.factorLane .x = .x := ite_self _

end Dialect

/-! ## Registers -/

namespace Register

section Agree

variable {d d' : Dialect}

theorem factor_congr (h : d.has .factorFromLaneX = d'.has .factorFromLaneX) :
    factor d = factor d' := by
  funext b
  rw [factor, factor, h]

theorem mad_congr (h : d.has .factorFromLaneX = d'.has .factorFromLaneX) : mad d = mad d' := by
  funext sat a b c
  rw [mad, mad, factor_congr h]

theorem imad_congr (h : d.has .factorFromLaneX = d'.has .factorFromLaneX) : imad d = imad d' := by
  funext a b c
  rw [imad, imad, factor_congr h]

theorem xor_congr (h : d.has .xorIsOr = d'.has .xorIsOr) : xor d = xor d' := by
  funext a b
  rw [xor, xor, h]

end Agree

theorem get_mad_x (d d' : Dialect) (sat : Bool) (a b c : Register) :
    (mad d sat a b c).get .x = (mad d' sat a b c).get .x := by
  rw [get_mad, get_mad, get_factor, get_factor, d.factorLane_x, d'.factorLane_x]

theorem get_imad_x (d d' : Dialect) (a b c : Register) :
    (imad d a b c).get .x = (imad d' a b c).get .x := by
  rw [get_imad, get_imad, get_factor, get_factor, d.factorLane_x, d'.factorLane_x]

section Differ

variable {on off : Dialect}

theorem get_xor_ne_iff (hon : on.bits.getLsbD 1 = true) (hoff : off.bits.getLsbD 1 = false)
    (a b : Register) (l : Lane) :
    (xor on a b).get l ≠ (xor off a b).get l ↔ a.get l &&& b.get l ≠ 0 := by
  rw [get_xor, get_xor, Dialect.xorWords_of_on hon, Dialect.xorWords_of_off hoff]
  exact not_congr (Word.or_eq_xor_iff _ _)

/-- Whichever way the words are read as integers, the dialects differ where the products do. -/
theorem get_imad_ne_iff (hon : on.bits.getLsbD 0 = true) (hoff : off.bits.getLsbD 0 = false)
    (a b c : Register) (l : Lane) {read : Word → Int} (hread : ∀ w, Word.ofInt (read w) = w) :
    (imad on a b c).get l ≠ (imad off a b c).get l ↔
      ¬ (2 ^ 32 : Int) ∣ read (a.get l) * (read (b.get .x) - read (b.get l)) := by
  rw [get_imad, get_imad, get_factor, get_factor, Dialect.factorLane_of_on hon,
    Dialect.factorLane_of_off hoff]
  have h := Word.mul_add_eq_iff (read (a.get l)) (read (b.get .x)) (read (b.get l)) (c.get l)
  simp only [hread] at h
  exact not_congr h

end Differ

end Register

end FourLane
