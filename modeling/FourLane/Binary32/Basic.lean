import FourLane.Word

/-!
# The binary32 reading of a word

A word is a sign, eight exponent bits and twenty-three fraction bits. Every finite binary32 number
is a whole multiple of `2 ^ -149`, the smallest positive one, so a finite datum is a sign and a
natural number of such units; infinities and NaNs complete the picture. The reading loses nothing:
`toWord_ofWord` gives back every word, payloads of NaNs and signs of zeros included.
-/

namespace FourLane

/-- What a word denotes as a binary32 datum. -/
inductive Binary32 where
  /-- Not a number, with its sign and its nonzero fraction bits. -/
  | nan (negative : Bool) (payload : Nat)
  | infinity (negative : Bool)
  /-- The number `± units * 2 ^ -149`. -/
  | finite (negative : Bool) (units : Nat)
  deriving DecidableEq, Repr

namespace Binary32

/-! ## Magnitudes

Without its sign bit a finite word is its exponent field times `2 ^ 23` plus its fraction. The first
two exponent fields share the unit as spacing; each later one doubles it.
-/

/-- The number of bits below the exponent field. -/
def fractionBits : Nat := 23

/-- The weight of the sign bit; the bits below it are the magnitude. -/
def signWeight : Nat := 0x80000000

/-- The units of `1.0`. -/
def unitsPerOne : Nat := 2 ^ (149 : Nat)

/-- The magnitude bits of infinity; finite magnitudes are below it and NaNs above. -/
def infinityBits : Nat := 0x7f800000

/-- The units of the finite magnitude with these bits. -/
def unitsOfBits (bits : Nat) : Nat :=
  let doublings := bits / 2 ^ fractionBits - 1
  (bits - doublings * 2 ^ fractionBits) * 2 ^ doublings

/-- The bits of the finite magnitude of `units`, a number of units that a word can hold. -/
def bitsOfUnits (units : Nat) : Nat :=
  let doublings := units.log2 - fractionBits
  doublings * 2 ^ fractionBits + units / 2 ^ doublings

/-- The word with this sign and these magnitude bits. -/
def signed (negative : Bool) (bits : Nat) : Word :=
  BitVec.ofNat 32 ((if negative then signWeight else 0) + bits)

/-! ## Reading and writing -/

/-- The datum that a word denotes. -/
def ofWord (w : Word) : Binary32 :=
  let bits := w.toNat % signWeight
  if bits < infinityBits then .finite w.msb (unitsOfBits bits)
  else if bits = infinityBits then .infinity w.msb
  else .nan w.msb (bits - infinityBits)

/-- The word of a datum that a word can hold. -/
def toWord : Binary32 → Word
  | nan negative payload => signed negative (infinityBits + payload)
  | infinity negative => signed negative infinityBits
  | finite negative units => signed negative (bitsOfUnits units)

/-- The NaN that arithmetic produces. -/
def quietNaN : Binary32 := .nan false 0x400000

/-- Whether a datum is no number. -/
def isNaN : Binary32 → Bool
  | nan .. => true
  | _ => false

/-! ## Reading is lossless -/

theorem unitsOfBits_of_small {bits : Nat} (h : bits < 2 ^ (fractionBits + 1)) :
    unitsOfBits bits = bits := by
  have hnone : bits / 2 ^ fractionBits - 1 = 0 := by
    simp only [fractionBits] at h ⊢
    omega
  simp only [unitsOfBits, hnone, Nat.zero_mul, Nat.sub_zero, Nat.pow_zero, Nat.mul_one]

theorem bitsOfUnits_of_small {units : Nat} (h : units < 2 ^ (fractionBits + 1)) :
    bitsOfUnits units = units := by
  have hnone : units.log2 - fractionBits = 0 := by
    rcases Nat.eq_zero_or_pos units with rfl | hpos
    · rfl
    · have := (Nat.log2_lt (by omega)).2 h
      omega
  simp only [bitsOfUnits, hnone, Nat.zero_mul, Nat.zero_add, Nat.pow_zero, Nat.div_one]

/-- A full significand, doubled `e` times, has its top bit `e` places higher. -/
theorem log2_mul_two_pow {f e : Nat} (hlow : 2 ^ fractionBits ≤ f)
    (hhigh : f < 2 ^ (fractionBits + 1)) : (f * 2 ^ e).log2 = fractionBits + e := by
  have hpos : 0 < 2 ^ e := Nat.two_pow_pos e
  have hf : 0 < f := Nat.lt_of_lt_of_le (Nat.two_pow_pos _) hlow
  have hne : f * 2 ^ e ≠ 0 := Nat.mul_ne_zero (by omega) (by omega)
  rw [Nat.log2_eq_iff hne]
  constructor
  · rw [Nat.pow_add]
    exact Nat.mul_le_mul_right _ hlow
  · rw [show fractionBits + e + 1 = fractionBits + 1 + e by omega, Nat.pow_add]
    exact Nat.mul_lt_mul_of_pos_right hhigh hpos

/-- The units of a magnitude determine its bits: below the first doubling they are the same number, above it
the top bit tells the exponent field. -/
theorem bitsOfUnits_unitsOfBits (bits : Nat) : bitsOfUnits (unitsOfBits bits) = bits := by
  by_cases h : bits < 2 ^ (fractionBits + 1)
  · rw [unitsOfBits_of_small h, bitsOfUnits_of_small h]
  · -- `e` is the number of doublings and `f` the significand with its leading one.
    obtain ⟨e, he⟩ : ∃ e, e = bits / 2 ^ fractionBits - 1 := ⟨_, rfl⟩
    obtain ⟨f, hf⟩ : ∃ f, f = bits - e * 2 ^ fractionBits := ⟨_, rfl⟩
    have hunits : unitsOfBits bits = f * 2 ^ e := by simp only [unitsOfBits, ← he, ← hf]
    have hrange : 2 ^ fractionBits ≤ f ∧ f < 2 ^ (fractionBits + 1) := by
      simp only [fractionBits] at h he hf ⊢
      omega
    have hlog : (f * 2 ^ e).log2 = fractionBits + e := log2_mul_two_pow hrange.1 hrange.2
    simp only [bitsOfUnits, hunits, hlog]
    rw [Nat.add_sub_cancel_left, Nat.mul_div_cancel _ (Nat.two_pow_pos e)]
    simp only [fractionBits] at h he hf ⊢
    omega

theorem signed_msb (w : Word) : signed w.msb (w.toNat % signWeight) = w := by
  apply BitVec.eq_of_toNat_eq
  have h := w.isLt
  rw [signed, BitVec.toNat_ofNat, BitVec.msb_eq_decide, signWeight]
  split <;> simp_all <;> omega

/-- Nothing is lost in reading a word as a datum, not even the payload of a NaN. -/
theorem toWord_ofWord (w : Word) : toWord (ofWord w) = w := by
  simp only [ofWord]
  split
  · rw [toWord, bitsOfUnits_unitsOfBits, signed_msb]
  · rename_i hlt
    split
    · rename_i heq
      rw [toWord, ← heq, signed_msb]
    · rw [toWord, Nat.add_sub_cancel' (Nat.le_of_not_lt hlt), signed_msb]

@[simp] theorem toWord_quietNaN : toWord quietNaN = 0x7fc00000 := by decide

end Binary32

end FourLane
