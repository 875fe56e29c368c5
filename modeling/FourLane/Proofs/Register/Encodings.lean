import FourLane.Register.Basic
import Mathlib.Algebra.BigOperators.Ring.Finset

/-!
# Encodings of a register

A register can be written out as bytes, words, signed integers or binary32 data and read in again.
What reading accepts is what writing produces (`ofWords_eq_ok_iff`, `ofBytes_eq_ok_iff`), so no
encoding loses or adds a bit, and a register comes through any chain of them unchanged
(`reencode_chain`). The number of a word read from bytes is their sum in base 256, the least
significant byte first.
-/

namespace FourLane

/-! ## Bytes -/

namespace Word

/-- The bytes of a number are its digits to base 256. -/
theorem foldr_eq_sum (bytes : List Byte) :
    bytes.foldr (fun b acc => b.toNat + 256 * acc) 0 =
      ∑ j ∈ Finset.range bytes.length, (bytes.getD j 0).toNat * 256 ^ j := by
  induction bytes with
  | nil => rfl
  | cons b bytes ih =>
    have hshift : ∀ j, ((b :: bytes).getD (j + 1) 0).toNat * 256 ^ (j + 1) =
        256 * ((bytes.getD j 0).toNat * 256 ^ j) := by
      intro j
      rw [List.getD_cons_succ, Nat.pow_succ]
      ac_rfl
    rw [List.foldr_cons, ih, List.length_cons, Finset.sum_range_succ', Finset.mul_sum]
    simp only [hshift, List.getD_cons_zero, Nat.pow_zero, Nat.mul_one, Nat.add_comm]

theorem foldr_lt (bytes : List Byte) :
    bytes.foldr (fun b acc => b.toNat + 256 * acc) 0 < 256 ^ bytes.length := by
  induction bytes with
  | nil => decide
  | cons b bytes ih =>
    have hb := b.isLt
    rw [List.foldr_cons, List.length_cons, Nat.pow_succ]
    omega

variable {bytes : List Byte}

theorem toNat_ofBytes (h : bytes.length = 4) :
    (ofBytes bytes).toNat = ∑ j ∈ Finset.range 4, (bytes.getD j 0).toNat * 256 ^ j := by
  have hlt : bytes.foldr (fun b acc => b.toNat + 256 * acc) 0 < 2 ^ 32 := by
    simpa [h] using foldr_lt bytes
  rw [ofBytes, BitVec.toNat_ofNat, Nat.mod_eq_of_lt hlt, foldr_eq_sum, h]

theorem toBytes_ofBytes_of_length (h : bytes.length = 4) : toBytes (ofBytes bytes) = bytes := by
  match bytes, h with
  | [a, b, c, d], _ => exact toBytes_ofBytes a b c d

end Word

namespace Register

/-! ## Reading accepts what writing produces -/

theorem ofWords_cases (words : List Word) :
    (words.length = 4 ∧ ∃ r, ofWords words = .ok r) ∨
      (words.length ≠ 4 ∧ ofWords words = .error (.laneCount words.length)) := by
  match words with
  | [] | [_] | [_, _] | [_, _, _] => exact .inr ⟨by simp, rfl⟩
  | [x, y, z, w] => exact .inl ⟨rfl, ⟨x, y, z, w⟩, rfl⟩
  | _ :: _ :: _ :: _ :: _ :: _ => exact .inr ⟨by simp, rfl⟩

theorem ofBytes_cases (bytes : List Byte) :
    (bytes.length = 16 ∧ ∃ r, ofBytes bytes = .ok r) ∨
      (bytes.length ≠ 16 ∧ ofBytes bytes = .error (.byteCount bytes.length)) := by
  unfold ofBytes
  by_cases hlen : bytes.length = 16
  · exact .inl ⟨hlen, _, if_pos hlen⟩
  · exact .inr ⟨hlen, if_neg hlen⟩

/-- The words that are read as a register are those it is written as. -/
theorem ofWords_eq_ok_iff {words : List Word} {r : Register} :
    ofWords words = .ok r ↔ words = r.toList := by
  constructor
  · intro h
    unfold ofWords at h
    split at h
    · rename_i q hq
      cases h
      exact (Quad.toList_of_ofList? hq).symm
    · cases h
  · rintro rfl
    exact ofWords_toList r

/-- The bytes of lane `l` in a list of bytes. -/
def laneBytes (bytes : List Byte) (l : Lane) : List Byte := (bytes.drop (4 * l.index)).take 4

theorem length_laneBytes {bytes : List Byte} (h : bytes.length = 16) (l : Lane) :
    (laneBytes bytes l).length = 4 := by
  have hl : l.index ≤ 3 := by cases l <;> decide
  rw [laneBytes, List.length_take, List.length_drop, h]
  omega

theorem getD_laneBytes (bytes : List Byte) (l : Lane) {j : Nat} (h : j < 4) :
    (laneBytes bytes l).getD j 0 = bytes.getD (4 * l.index + j) 0 := by
  rw [laneBytes, List.getD_eq_getElem?_getD, List.getElem?_take_of_lt h, List.getElem?_drop,
    ← List.getD_eq_getElem?_getD]

/-- The bytes of all lanes, one after the other, are all bytes. -/
theorem flatMap_laneBytes {bytes : List Byte} (h : bytes.length = 16) :
    Lane.all.flatMap (laneBytes bytes) = bytes := by
  have hrest : (bytes.drop 12).take 4 = bytes.drop 12 := by
    apply List.take_of_length_le
    rw [List.length_drop, h]
  have hcut : ∀ k, (bytes.drop k).take 4 ++ bytes.drop (k + 4) = bytes.drop k := by
    intro k
    rw [← List.drop_drop, List.take_append_drop]
  calc Lane.all.flatMap (laneBytes bytes)
      = (bytes.drop 0).take 4 ++ ((bytes.drop 4).take 4 ++ ((bytes.drop 8).take 4 ++
          (bytes.drop 12).take 4)) := by simp [Lane.all, laneBytes, Lane.index]
    _ = bytes := by rw [hrest, hcut 8, hcut 4, hcut 0, List.drop_zero]

theorem get_of_ofBytes {bytes : List Byte} {r : Register} (h : ofBytes bytes = .ok r) (l : Lane) :
    r.get l = Word.ofBytes (laneBytes bytes l) := by
  unfold ofBytes at h
  split at h
  · cases h
    exact Quad.get_ofFn ..
  · cases h

theorem length_of_ofBytes {bytes : List Byte} {r : Register} (h : ofBytes bytes = .ok r) :
    bytes.length = 16 := by
  rcases ofBytes_cases bytes with ⟨hlen, -⟩ | ⟨-, herror⟩
  · exact hlen
  · rw [herror] at h
    cases h

/-- The bytes that are read as a register are those it is written as. -/
theorem ofBytes_eq_ok_iff {bytes : List Byte} {r : Register} :
    ofBytes bytes = .ok r ↔ bytes = r.toBytes := by
  constructor
  · intro h
    have hlen := length_of_ofBytes h
    have hlane : ∀ l, (r.get l).toBytes = laneBytes bytes l := by
      intro l
      rw [get_of_ofBytes h l, Word.toBytes_ofBytes_of_length (length_laneBytes hlen l)]
    rw [toBytes, Quad.toList_eq_map_get, List.flatMap_map]
    simp only [hlane, flatMap_laneBytes hlen]
  · rintro rfl
    exact ofBytes_toBytes r

/-- Lane `l` of a register read from bytes is the number of four of them in base 256. -/
theorem toNat_get_of_ofBytes {bytes : List Byte} {r : Register} (h : ofBytes bytes = .ok r)
    (l : Lane) : (r.get l).toNat =
      ∑ j ∈ Finset.range 4, (bytes.getD (4 * l.index + j) 0).toNat * 256 ^ j := by
  rw [get_of_ofBytes h l, Word.toNat_ofBytes (length_laneBytes (length_of_ofBytes h) l)]
  apply Finset.sum_congr rfl
  intro j hj
  rw [getD_laneBytes bytes l (Finset.mem_range.1 hj)]

/-! ## Numbers -/

theorem toInts_ofInts {ints : Quad Int}
    (h : ∀ l, -2147483648 ≤ ints.get l ∧ ints.get l ≤ 2147483647) : toInts (ofInts ints) = ints := by
  apply Quad.ext_get
  intro l
  have hl := h l
  rw [toInts, ofInts, Quad.get_map, Quad.get_map, Word.ofInt]
  apply BitVec.toInt_ofInt_eq_self (by decide) <;> omega

theorem toFloats_ofFloats {floats : Quad Binary32}
    (h : ∀ l, ∃ w, floats.get l = Binary32.ofWord w) : toFloats (ofFloats floats) = floats := by
  apply Quad.ext_get
  intro l
  obtain ⟨w, hw⟩ := h l
  rw [toFloats, ofFloats, Quad.get_map, Quad.get_map, hw, Binary32.toWord_ofWord]

/-! ## Chains of encodings -/

/-- A form in which a register can be written out and read in. -/
inductive Encoding where
  | bytes | words | ints | floats
  deriving DecidableEq, Repr

/-- Writes a register out and reads it in again. -/
def reencode (r : Register) : Encoding → Except Error Register
  | .bytes => ofBytes r.toBytes
  | .words => ofWords r.toList
  | .ints => .ok (ofInts r.toInts)
  | .floats => .ok (ofFloats r.toFloats)

/-- Each encoding gives the register back. -/
theorem reencode_eq (r : Register) (e : Encoding) : r.reencode e = .ok r := by
  cases e with
  | bytes => exact ofBytes_toBytes r
  | words => exact ofWords_toList r
  | ints => exact congrArg Except.ok (ofInts_toInts r)
  | floats => exact congrArg Except.ok (ofFloats_toFloats r)

/-- A chain of encodings gives the register back, by induction on the chain. -/
theorem reencode_chain (r : Register) (chain : List Encoding) : chain.foldlM reencode r = .ok r := by
  induction chain with
  | nil => rfl
  | cons e chain ih =>
    rw [List.foldlM_cons, reencode_eq]
    exact ih

/-- Sixteen bytes and four words are a register, other lists are refused with their length, and what
is read is written out as it was given. A register, and every datum that a lane can hold, comes back
from each encoding and from any chain of them. -/
theorem encodings_lossless :
    (∀ bytes : List Byte,
      (bytes.length = 16 ∧ ∃ r, ofBytes bytes = .ok r ∧ r.toBytes = bytes ∧
        ∀ l, (r.get l).toNat =
          ∑ j ∈ Finset.range 4, (bytes.getD (4 * l.index + j) 0).toNat * 256 ^ j) ∨
      (bytes.length ≠ 16 ∧ ofBytes bytes = .error (.byteCount bytes.length))) ∧
    (∀ words : List Word,
      (words.length = 4 ∧ ∃ r, ofWords words = .ok r ∧ r.toList = words) ∨
      (words.length ≠ 4 ∧ ofWords words = .error (.laneCount words.length))) ∧
    (∀ ints : Quad Int, (∀ l, -2147483648 ≤ ints.get l ∧ ints.get l ≤ 2147483647) →
      toInts (ofInts ints) = ints) ∧
    (∀ floats : Quad Binary32, (∀ l, ∃ w, floats.get l = Binary32.ofWord w) →
      toFloats (ofFloats floats) = floats) ∧
    ∀ r : Register, ofBytes r.toBytes = .ok r ∧ ofWords r.toList = .ok r ∧
      ofInts r.toInts = r ∧ ofFloats r.toFloats = r ∧
      ∀ chain : List Encoding, chain.foldlM reencode r = .ok r := by
  refine ⟨fun bytes => ?_, fun words => ?_, fun ints h => toInts_ofInts h,
    fun floats h => toFloats_ofFloats h, fun r => ⟨ofBytes_toBytes r, ofWords_toList r,
      ofInts_toInts r, ofFloats_toFloats r, reencode_chain r⟩⟩
  · rcases ofBytes_cases bytes with ⟨hlen, r, hr⟩ | hrefused
    · exact .inl ⟨hlen, r, hr, (ofBytes_eq_ok_iff.1 hr).symm, toNat_get_of_ofBytes hr⟩
    · exact .inr hrefused
  · rcases ofWords_cases words with ⟨hlen, r, hr⟩ | hrefused
    · exact .inl ⟨hlen, r, hr, (ofWords_eq_ok_iff.1 hr).symm⟩
    · exact .inr hrefused

end Register

end FourLane
