import FourLane.Proofs.Binary32.Value

/-!
# The kinds of words

A word is its sign and the bits below it, its magnitude. By its fields it is a NaN, an infinity, a
zero or another number. `reading` says what the library reads in a word of each kind; statements
about an operation start from it and do not open the encoding.
-/

namespace FourLane.Word

/-! ## Words by sign and magnitude -/

/-- The exponent is not the one of infinities and NaNs. -/
def IsFinite (w : Word) : Prop := w.exponentField < 255

/-- The infinity of a sign. -/
def infinity (negative : Bool) : Word := if negative then 0xff800000 else 0x7f800000

/-- The zero of a sign. -/
def zero (negative : Bool) : Word := if negative then 0x80000000 else 0

/-- The bits below the sign. -/
def magnitude (w : Word) : Nat := w.toNat % Binary32.signWeight

/-- The sign as a factor. -/
def signFactor (negative : Bool) : ℚ := if negative then -1 else 1

theorem magnitude_eq (w : Word) : w.magnitude = w.exponentField * 2 ^ 23 + w.fractionField :=
  w.toNat_mod_signWeight

/-- The infinity is the least magnitude that is not finite. -/
theorem isFinite_iff (w : Word) : w.IsFinite ↔ w.magnitude < Binary32.infinityBits := by
  have hf := w.fields_lt.2
  rw [magnitude_eq]
  unfold IsFinite Binary32.infinityBits
  omega

theorem even_significand_iff (w : Word) : Even w.significand ↔ Even w.magnitude := by
  have hshift : Even (w.exponentField * 2 ^ 23) := Even.mul_left (by decide) _
  have hlead : Even (2 ^ 23) := by decide
  rw [magnitude_eq, significand, Nat.even_add, iff_true_intro hshift, true_iff]
  split
  · rfl
  · rw [Nat.even_add, iff_true_intro hlead, true_iff]

theorem signed_magnitude (w : Word) : Binary32.signed w.msb w.magnitude = w := Binary32.signed_msb w

theorem msb_signed (negative : Bool) {b : Nat} (h : b < Binary32.signWeight) :
    (Binary32.signed negative b).msb = negative := by
  unfold Binary32.signWeight at h
  rw [BitVec.msb_eq_decide, Binary32.signed, BitVec.toNat_ofNat, Binary32.signWeight]
  cases negative <;> simp <;> omega

theorem magnitude_signed (negative : Bool) {b : Nat} (h : b < Binary32.signWeight) :
    (Binary32.signed negative b).magnitude = b := by
  unfold Binary32.signWeight at h
  rw [magnitude, Binary32.signed, BitVec.toNat_ofNat, Binary32.signWeight]
  cases negative <;> simp <;> omega

theorem signed_infinityBits (negative : Bool) :
    Binary32.signed negative Binary32.infinityBits = infinity negative := by
  cases negative <;> rfl

theorem signed_zero (negative : Bool) : Binary32.signed negative 0 = zero negative := by
  cases negative <;> rfl

theorem eq_of_magnitude_eq {x y : Word} (hsign : x.msb = y.msb) (h : x.magnitude = y.magnitude) :
    x = y := by
  rw [← signed_magnitude x, ← signed_magnitude y, hsign, h]

@[simp] theorem abs_signFactor (negative : Bool) : |signFactor negative| = 1 := by
  cases negative <;> simp [signFactor]

theorem signFactor_ne_zero (negative : Bool) : signFactor negative ≠ 0 := by
  cases negative <;> simp [signFactor]

theorem signFactor_of_ne {s t : Bool} (h : s ≠ t) : signFactor s = -signFactor t := by
  rw [Bool.eq_not.2 h]
  cases t <;> simp [signFactor]

theorem signFactor_mul_self (negative : Bool) : signFactor negative * signFactor negative = 1 := by
  cases negative <;> simp [signFactor]

theorem signFactor_mul (s t : Bool) : signFactor s * signFactor t = signFactor (s ^^ t) := by
  cases s <;> cases t <;> simp [signFactor]

theorem signFactor_div (s t : Bool) : signFactor s / signFactor t = signFactor (s ^^ t) := by
  cases s <;> cases t <;> simp [signFactor]

theorem signFactor_mul_abs (q : ℚ) : signFactor (q < 0) * |q| = q := by
  rcases lt_or_ge q 0 with hneg | hpos
  · rw [decide_eq_true hneg, signFactor, if_pos rfl, abs_of_neg hneg, neg_one_mul, neg_neg]
  · rw [decide_eq_false hpos.not_gt, signFactor, if_neg Bool.false_ne_true, abs_of_nonneg hpos, one_mul]

theorem signFactor_mul_natAbs (k : Int) : signFactor (k < 0) * (k.natAbs : ℚ) = k := by
  have h := signFactor_mul_abs k
  rw [← Int.cast_abs, Int.abs_eq_natAbs, Int.cast_natCast] at h
  simpa only [Int.cast_lt_zero] using h

theorem rational_eq_signedUnits (w : Word) :
    w.rational = (Binary32.signedUnits w.msb (Binary32.unitsOfBits w.magnitude) : ℚ) /
      Binary32.unitsPerOne := by
  rw [Binary32.rational_eq, magnitude_eq, Binary32.unitsOfBits_fields w.fields_lt.2]
  rfl

theorem rational_eq_units (w : Word) :
    w.rational =
      signFactor w.msb * ((Binary32.unitsOfBits w.magnitude : ℚ) / Binary32.unitsPerOne) := by
  rw [rational_eq_signedUnits]
  unfold Binary32.signedUnits signFactor
  cases w.msb <;> simp [neg_div]

theorem abs_rational (w : Word) :
    |w.rational| = (Binary32.unitsOfBits w.magnitude : ℚ) / Binary32.unitsPerOne := by
  rw [rational_eq_units, abs_mul, abs_signFactor, one_mul, abs_of_nonneg (by positivity)]

theorem rational_nonpos {w : Word} (h : w.msb = true) : w.rational ≤ 0 := by
  have hunits : (0 : ℚ) ≤ Binary32.unitsOfBits w.magnitude / Binary32.unitsPerOne := by positivity
  rw [rational_eq_units, h, signFactor, if_pos rfl, neg_one_mul]
  exact neg_nonpos.2 hunits

theorem rational_of_positive {w : Word} (h : w.msb = false) :
    w.rational = (Binary32.unitsOfBits w.magnitude : ℚ) / Binary32.unitsPerOne := by
  rw [rational_eq_units, h, signFactor, if_neg Bool.false_ne_true, one_mul]

theorem rational_nonneg {w : Word} (h : w.msb = false) : 0 ≤ w.rational := by
  rw [rational_of_positive h]
  positivity

/-- A number that is not zero has the sign of its word. -/
theorem msb_eq_decide_rational {w : Word} (h : w.rational ≠ 0) : w.msb = decide (w.rational < 0) := by
  cases hsign : w.msb with
  | true => exact (decide_eq_true ((rational_nonpos hsign).lt_of_ne h)).symm
  | false => exact (decide_eq_false (rational_nonneg hsign).not_gt).symm

/-! ## Kinds -/

/-- What a word denotes, up to its sign and its number. -/
inductive Kind where
  | nan | infinite | zero | nonzero
  deriving DecidableEq, Repr

instance (w : Word) : Decidable w.IsFinite := inferInstanceAs (Decidable (_ < _))

/-- The kind of a word, by its fields. -/
def kind (w : Word) : Kind :=
  if w.IsFinite then if w.rational = 0 then .zero else .nonzero
  else if w.fractionField = 0 then .infinite
  else .nan

theorem rational_eq_zero_iff (w : Word) : w.rational = 0 ↔ Binary32.unitsOfBits w.magnitude = 0 := by
  rw [rational_eq_units, mul_eq_zero_iff_left (signFactor_ne_zero _), div_eq_zero_iff,
    or_iff_left Binary32.cast_unitsPerOne_pos.ne', Nat.cast_eq_zero]

theorem rational_zero (negative : Bool) : (zero negative).rational = 0 := by
  rw [rational_eq_zero_iff]
  cases negative <;> decide

theorem ofWord_of_isFinite {w : Word} (h : w.IsFinite) :
    Binary32.ofWord w = .finite w.msb (Binary32.unitsOfBits w.magnitude) :=
  if_pos ((isFinite_iff w).1 h)

theorem eq_infinity {w : Word} (h : ¬ w.IsFinite) (hf : w.fractionField = 0) :
    w = infinity w.msb := by
  have he := w.fields_lt.1
  have hmag : w.magnitude = Binary32.infinityBits := by
    unfold IsFinite at h
    rw [magnitude_eq, hf, Binary32.infinityBits]
    omega
  rw [← signed_infinityBits, ← hmag, signed_magnitude]

theorem eq_zero {w : Word} (h : w.rational = 0) : w = zero w.msb := by
  have hmag : w.magnitude = 0 := by
    rw [← Binary32.bitsOfUnits_unitsOfBits w.magnitude, (rational_eq_zero_iff w).1 h]
    rfl
  rw [← signed_zero, ← hmag, signed_magnitude]

theorem isFinite_zero (negative : Bool) : (zero negative).IsFinite := by
  cases negative <;> decide

theorem kind_zero (negative : Bool) : (zero negative).kind = .zero := by
  rw [kind, if_pos (isFinite_zero negative), if_pos (rational_zero negative)]

theorem kind_of_rational_ne_zero {w : Word} (hfin : w.IsFinite) (h : w.rational ≠ 0) :
    w.kind = .nonzero := by
  rw [kind, if_pos hfin, if_neg h]

theorem kind_infinity (negative : Bool) : (infinity negative).kind = .infinite := by
  cases negative <;> rw [kind, if_neg (by decide), if_pos (by decide)]

theorem kind_ne_nan_of_isFinite {w : Word} (h : w.IsFinite) : w.kind ≠ .nan := by
  rw [kind, if_pos h]
  split <;> decide

theorem isFinite_iff_kind (w : Word) : w.IsFinite ↔ w.kind = .zero ∨ w.kind = .nonzero := by
  unfold kind
  by_cases hfin : w.IsFinite
  · by_cases hrat : w.rational = 0 <;> simp [hfin, hrat]
  · by_cases hfraction : w.fractionField = 0 <;> simp [hfin, hfraction]

/-- What a word of each kind is, and what the library reads in it. -/
inductive Reading (w : Word) : Kind → Binary32 → Prop
  | nan (negative : Bool) (payload : Nat) : Reading w .nan (.nan negative payload)
  | infinite (h : w = infinity w.msb) : Reading w .infinite (.infinity w.msb)
  | zero (h : w = zero w.msb) (hfin : w.IsFinite) (hrat : w.rational = 0) :
      Reading w .zero (.finite w.msb 0)
  | nonzero (hfin : w.IsFinite) (hrat : w.rational ≠ 0) :
      Reading w .nonzero (.finite w.msb (Binary32.unitsOfBits w.magnitude))

/-- Every word is read as its kind says. -/
theorem reading (w : Word) : Reading w w.kind (Binary32.ofWord w) := by
  have he := w.fields_lt.1
  unfold kind
  split
  · rename_i hfin
    rw [ofWord_of_isFinite hfin]
    split
    · rename_i hrat
      rw [(rational_eq_zero_iff w).1 hrat]
      exact .zero (eq_zero hrat) hfin hrat
    · rename_i hrat
      exact .nonzero hfin hrat
  · rename_i hfin
    have hexp : w.exponentField = 255 := by
      unfold IsFinite at hfin
      omega
    split
    · rename_i hfrac
      rw [Binary32.ofWord_of_infinite hexp hfrac]
      exact .infinite (eq_infinity hfin hfrac)
    · rename_i hfrac
      rw [Binary32.ofWord_of_nan hexp hfrac]
      exact .nan _ _

end FourLane.Word
