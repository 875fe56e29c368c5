import FourLane.Text.Basic

/-!
# Words and bytes

A lane of a register is a word: 32 bits and nothing else. Its unsigned reading is `toNat`, its
signed reading is `toInt`; the binary32 reading has its own module. This module adds the two masks
that a comparison can answer, the little-endian bytes of a word and its hexadecimal text.
-/

namespace FourLane

/-- The 32 bits of one lane. -/
abbrev Word := BitVec 32

/-- Eight bits, a quarter of a word. -/
abbrev Byte := BitVec 8

namespace Word

/-- The mask of a comparison that holds. -/
def allOnes : Word := BitVec.allOnes 32

/-- All ones for a comparison that holds and zero for one that does not. -/
def ofMask (holds : Bool) : Word := if holds then allOnes else 0

@[simp] theorem ofMask_true : ofMask true = allOnes := rfl

@[simp] theorem ofMask_false : ofMask false = 0 := rfl

/-- The two's complement pattern of an integer, which has the integer's value modulo `2 ^ 32`. -/
def ofInt (k : Int) : Word := BitVec.ofInt 32 k

theorem ofInt_toInt (w : Word) : ofInt w.toInt = w := BitVec.ofInt_toInt

/-! ## Bytes, least significant first -/

/-- The four bytes of a word. -/
def toBytes (w : Word) : List Byte :=
  [w.setWidth 8, (w >>> 8).setWidth 8, (w >>> 16).setWidth 8, (w >>> 24).setWidth 8]

/-- The word whose bytes, least significant first, are `bytes`; bytes past the fourth are lost. -/
def ofBytes (bytes : List Byte) : Word :=
  BitVec.ofNat 32 (bytes.foldr (fun b acc => b.toNat + 256 * acc) 0)

@[simp] theorem length_toBytes (w : Word) : w.toBytes.length = 4 := rfl

theorem ofBytes_toBytes (w : Word) : ofBytes w.toBytes = w := by
  apply BitVec.eq_of_toNat_eq
  have h := w.isLt
  simp [ofBytes, toBytes, BitVec.toNat_ushiftRight, Nat.shiftRight_eq_div_pow]
  omega

/-- Four bytes are read back from the word that they make. -/
theorem toBytes_ofBytes (a b c d : Byte) : toBytes (ofBytes [a, b, c, d]) = [a, b, c, d] := by
  have ha := a.isLt
  have hb := b.isLt
  have hc := c.isLt
  have hd := d.isLt
  simp only [ofBytes, toBytes, List.foldr, List.cons.injEq, and_true]
  refine ⟨?_, ?_, ?_, ?_⟩ <;> apply BitVec.eq_of_toNat_eq <;>
    simp [BitVec.toNat_ushiftRight, Nat.shiftRight_eq_div_pow] <;> omega

/-! ## Text -/

/-- A word as `0x` and exactly eight hexadecimal digits. -/
def hex (w : Word) : String := "0x" ++ String.ofList (Text.paddedHexadecimal 8 w.toNat)

end Word

end FourLane
