import FourLane.Register.Text
import Mathlib.Algebra.Order.Field.Basic
import Mathlib.Data.List.DropRight
import Mathlib.Data.Rat.Cast.Order
import Mathlib.Tactic.Ring

/-!
# The text of a decimal

A text is described by the signs and digits that it is made of, without the computation that made it:
`WrittenPositionally` has a point with digits on both sides and no zero that could be left out,
`WrittenScientifically` one digit, then others behind a point if there are others, and a power of ten,
which is the numeral of an integer (`SignedNumeral`). All say which number is written, and the library's
two texts of a decimal write its value.

Everything rests on the significant digits, which have no zero at either end (`significant`), and on
where they stand (`value_eq`).
-/

namespace FourLane.Decimal

/-- The number that a decimal stands for. -/
def value (d : Decimal) : ℚ := d.significand * (10 : ℚ) ^ d.exponent

/-- The number that digits write, most significant first. -/
def number (digits : List Char) : Nat := Nat.ofDigitChars 10 digits 0

/-! ## What is written -/

/-- A text as it stands, or behind a minus sign if something is negative. -/
inductive Signed (body : List Char) : Bool → List Char → Prop
  | minus : Signed body true ('-' :: body)
  | plain : Signed body false body

/-- The numeral of a natural number: its digits, without a zero that could be left out in front. -/
structure Numeral (digits : List Char) (n : Nat) : Prop where
  isDigit : ∀ c ∈ digits, c.isDigit
  ne_nil : digits ≠ []
  leading : digits.head? = some '0' → digits = ['0']
  number_eq : number digits = n

/-- The numeral of an integer has a minus sign exactly if it is negative. -/
def SignedNumeral (text : List Char) (k : Int) : Prop :=
  ∃ digits, Numeral digits k.natAbs ∧ Signed digits (k < 0) text

/-- Digits on both sides of a point, without leading or trailing zeros that could be left out. -/
structure AroundPoint (whole fraction : List Char) : Prop where
  isDigit : ∀ c ∈ whole ++ fraction, c.isDigit
  whole_ne : whole ≠ []
  fraction_ne : fraction ≠ []
  leading : whole.head? = some '0' → whole = ['0']
  trailing : fraction.getLast? = some '0' → fraction = ['0']

/-- A text is digits around a point, and `v` is the number that the digits write, over the power of ten
that the digits behind the point ask for. -/
def WrittenPositionally (text : List Char) (v : ℚ) : Prop :=
  ∃ whole fraction, AroundPoint whole fraction ∧ text = whole ++ '.' :: fraction ∧
    v = (number (whole ++ fraction) : ℚ) / 10 ^ fraction.length

/-- One digit other than zero and those behind it, of which the last is not a zero. -/
structure AfterFirst (lead : Char) (fraction : List Char) : Prop where
  isDigit : ∀ c ∈ lead :: fraction, c.isDigit
  lead_ne : lead ≠ '0'
  trailing : fraction.getLast? ≠ some '0'

/-- A text is one digit, the others behind a point if there are others, and the numeral of an exponent
behind an `e`; `v` is the number that the digits write with the point where the exponent puts it. -/
def WrittenScientifically (text : List Char) (v : ℚ) : Prop :=
  ∃ lead fraction power exponent, AfterFirst lead fraction ∧ SignedNumeral power exponent ∧
    text = lead :: (if fraction = [] then [] else '.' :: fraction) ++ 'e' :: power ∧
    v = number (lead :: fraction) * (10 : ℚ) ^ (exponent - fraction.length)

/-! ## Digits and zeros -/

/-- Zeros behind the digits multiply the number, zeros in front leave it as it is. -/
theorem number_append_zeros (digits : List Char) (n : Nat) :
    number (digits ++ List.replicate n '0') = number digits * 10 ^ n := by
  rw [number, Nat.ofDigitChars_append, Nat.ofDigitChars_replicate_zero, Nat.mul_comm]
  rfl

theorem number_zeros_append (digits : List Char) (n : Nat) :
    number (List.replicate n '0' ++ digits) = number digits := by
  rw [number, Nat.ofDigitChars_append, Nat.ofDigitChars_replicate_zero, Nat.mul_zero]
  rfl

theorem head?_digit : ∀ n < 10, 0 < n → [n.digitChar].head? ≠ some '0' := by decide

theorem head?_decimal {n : Nat} (h : 0 < n) : (Text.decimal n).head? ≠ some '0' := by
  unfold Text.decimal
  induction n using Nat.strongRecOn with
  | ind n ih =>
    rcases Nat.lt_or_ge n 10 with hlt | hge
    · rw [Nat.toDigits_of_lt_base hlt]
      exact head?_digit n hlt h
    · rw [Nat.toDigits_of_base_le (by decide) hge, List.head?_append_of_ne_nil _ Nat.toDigits_ne_nil]
      exact ih (n / 10) (by omega) (by omega)

/-- The digits of a number are its numeral. -/
theorem numeral_decimal (n : Nat) : Numeral (Text.decimal n) n where
  isDigit _ hc := Nat.isDigit_of_mem_toDigits (by decide) le_rfl hc
  ne_nil := Nat.toDigits_ne_nil
  leading h := by
    rcases Nat.eq_zero_or_pos n with rfl | hpos
    · rfl
    · exact absurd h (head?_decimal hpos)
  number_eq := Nat.ofDigitChars_ten_toDigits

/-- An integer is written with a sign exactly if it is negative. -/
theorem signedNumeral_signedDecimal (k : Int) : SignedNumeral (signedDecimal k) k := by
  refine ⟨_, numeral_decimal k.natAbs, ?_⟩
  unfold signedDecimal
  split_ifs with h
  · rw [decide_eq_true h]
    exact .minus
  · rw [decide_eq_false h]
    exact .plain

/-- Digits with no zero at either end. -/
structure Significant (digits : List Char) : Prop where
  isDigit : ∀ c ∈ digits, c.isDigit
  ne_nil : digits ≠ []
  head : digits.head? ≠ some '0'
  last : digits.getLast? ≠ some '0'

variable (d : Decimal)

theorem significantDigits_eq :
    d.significantDigits = (Text.decimal d.significand).rdropWhile (· == '0') :=
  rfl

theorem exists_zeros :
    ∃ n, Text.decimal d.significand = d.significantDigits ++ List.replicate n '0' := by
  have hzeros : ∀ c ∈ (Text.decimal d.significand).rtakeWhile (· == '0'), c = '0' := fun c hc =>
    eq_of_beq (List.mem_rtakeWhile_imp (p := (· == '0')) hc)
  have hsplit : Text.decimal d.significand =
      d.significantDigits ++ (Text.decimal d.significand).rtakeWhile (· == '0') :=
    List.rdropWhile_append_rtakeWhile.symm
  rw [List.eq_replicate_of_mem hzeros] at hsplit
  exact ⟨_, hsplit⟩

/-- Significant digits begin and end with a digit other than zero. -/
theorem significant (h : 0 < d.significand) : Significant d.significantDigits := by
  have hhead := head?_decimal h
  have hne : d.significantDigits ≠ [] := by
    intro hnil
    rw [significantDigits_eq, List.rdropWhile_eq_nil_iff] at hnil
    obtain ⟨c, cs, hcons⟩ := List.exists_cons_of_ne_nil (numeral_decimal d.significand).ne_nil
    rw [hcons] at hhead hnil
    exact hhead (congrArg some (eq_of_beq (hnil c List.mem_cons_self)))
  have hprefix : d.significantDigits <+: Text.decimal d.significand := List.rdropWhile_prefix _ _
  obtain ⟨rest, hrest⟩ := hprefix
  refine ⟨fun c hc => ?_, hne, ?_, ?_⟩
  · refine (numeral_decimal d.significand).isDigit c ?_
    rw [← hrest]
    exact List.mem_append_left rest hc
  · rwa [← hrest, List.head?_append_of_ne_nil _ hne] at hhead
  · rw [List.getLast?_eq_some_getLast hne]
    exact fun h => List.rdropWhile_last_not _ _ hne (beq_iff_eq.2 (Option.some.inj h))

theorem value_eq :
    d.value = number d.significantDigits * (10 : ℚ) ^ (d.point - d.significantDigits.length) := by
  obtain ⟨n, hzeros⟩ := d.exists_zeros
  have hnumber : d.significand = number d.significantDigits * 10 ^ n := by
    rw [← number_append_zeros, ← hzeros]
    exact (numeral_decimal _).number_eq.symm
  have hplace : d.point - d.significantDigits.length = n + d.exponent := by
    rw [point, hzeros, List.length_append, List.length_replicate]
    omega
  rw [value, hnumber, hplace, zpow_add₀ (by norm_num), zpow_natCast]
  push_cast
  ring

theorem value_onGrid (p point : Nat) :
    (onGrid p point).value * (10 : ℚ) ^ (149 : ℤ) = (point * 10 ^ p : Nat) := by
  rw [value, onGrid, mul_assoc, ← zpow_add₀ (by norm_num), sub_add_cancel, zpow_natCast]
  push_cast
  rfl

/-! ## The two texts -/

variable {digits : List Char}

theorem isDigit_replicate (n : Nat) : ∀ c ∈ List.replicate n '0', c.isDigit := fun _ hc =>
  List.eq_of_mem_replicate hc ▸ rfl

/-- All digits behind the point, after zeros. -/
theorem Significant.behind_point (h : Significant digits) (n : Nat) :
    WrittenPositionally (['0', '.'] ++ List.replicate n '0' ++ digits)
      (number digits / 10 ^ (n + digits.length)) := by
  refine ⟨['0'], List.replicate n '0' ++ digits,
    ⟨?_, List.cons_ne_nil _ _, ?_, fun _ => rfl, ?_⟩, rfl, ?_⟩
  · intro c hc
    rcases List.mem_append.1 hc with hc | hc
    · exact isDigit_replicate 1 c hc
    · exact (List.mem_append.1 hc).elim (isDigit_replicate n c) (h.isDigit c)
  · exact List.append_ne_nil_of_right_ne_nil _ h.ne_nil
  · rw [List.getLast?_append_of_ne_nil _ h.ne_nil]
    exact fun hlast => absurd hlast h.last
  · have hzeros : ['0'] ++ (List.replicate n '0' ++ digits) = List.replicate (n + 1) '0' ++ digits := rfl
    rw [hzeros, number_zeros_append, List.length_append, List.length_replicate]

/-- All digits before the point, zeros after them. -/
theorem Significant.before_point (h : Significant digits) (n : Nat) :
    WrittenPositionally (digits ++ List.replicate n '0' ++ ['.', '0']) (number digits * 10 ^ n) := by
  refine ⟨digits ++ List.replicate n '0', ['0'],
    ⟨?_, ?_, List.cons_ne_nil _ _, ?_, fun _ => rfl⟩, rfl, ?_⟩
  · intro c hc
    rcases List.mem_append.1 hc with hc | hc
    · exact (List.mem_append.1 hc).elim (h.isDigit c) (isDigit_replicate n c)
    · exact isDigit_replicate 1 c hc
  · exact List.append_ne_nil_of_left_ne_nil h.ne_nil _
  · rw [List.head?_append_of_ne_nil _ h.ne_nil]
    exact fun hhead => absurd hhead h.head
  · have hzeros : digits ++ List.replicate n '0' ++ ['0'] = digits ++ List.replicate (n + 1) '0' := by
      rw [List.append_assoc, List.replicate_succ']
    rw [hzeros, number_append_zeros]
    push_cast
    rw [List.length_singleton, pow_succ, pow_one, ← mul_assoc, mul_div_cancel_right₀ _ (by norm_num)]

/-- The point among the digits. -/
theorem Significant.around_point (h : Significant digits) {n : Nat} (hpos : 0 < n)
    (hlt : n < digits.length) :
    WrittenPositionally (digits.take n ++ '.' :: digits.drop n)
      (number digits / 10 ^ (digits.length - n)) := by
  have htake : digits.take n ≠ [] := by
    rw [ne_eq, List.take_eq_nil_iff]
    exact not_or.2 ⟨hpos.ne', h.ne_nil⟩
  have hdrop : digits.drop n ≠ [] := by
    rw [ne_eq, List.drop_eq_nil_iff]
    exact hlt.not_ge
  have hhead := h.head
  have hlast := h.last
  rw [← List.take_append_drop n digits] at hhead hlast
  rw [List.head?_append_of_ne_nil _ htake] at hhead
  rw [List.getLast?_append_of_ne_nil _ hdrop] at hlast
  refine ⟨_, _, ⟨?_, htake, hdrop, fun h => absurd h hhead, fun h => absurd h hlast⟩, rfl, ?_⟩
  · rw [List.take_append_drop]
    exact h.isDigit
  · rw [List.take_append_drop, List.length_drop]

/-- The first text of a decimal is positional and shows its number. -/
theorem writtenPositionally (h : 0 < d.significand) : WrittenPositionally d.positional d.value := by
  have hdigits := d.significant h
  rw [value_eq, positional]
  dsimp only
  split
  · have hplace : d.point - d.significantDigits.length =
        -((d.point.natAbs + d.significantDigits.length : Nat) : ℤ) := by omega
    rw [hplace, zpow_neg, zpow_natCast, ← div_eq_mul_inv]
    exact hdigits.behind_point _
  · split
    · have hplace : d.point - d.significantDigits.length =
          ((d.point.natAbs - d.significantDigits.length : Nat) : ℤ) := by omega
      rw [hplace, zpow_natCast]
      exact hdigits.before_point _
    · have hplace : d.point - d.significantDigits.length =
          -((d.significantDigits.length - d.point.natAbs : Nat) : ℤ) := by omega
      rw [hplace, zpow_neg, zpow_natCast, ← div_eq_mul_inv]
      exact hdigits.around_point (by omega) (by omega)

theorem Significant.afterFirst {lead : Char} {fraction : List Char}
    (h : Significant (lead :: fraction)) : AfterFirst lead fraction := by
  refine ⟨h.isDigit, fun hlead => h.head (congrArg some hlead), fun hlast => h.last ?_⟩
  have hne : fraction ≠ [] := by
    rintro rfl
    cases hlast
  rwa [← List.singleton_append, List.getLast?_append_of_ne_nil _ hne]

/-- The second text of a decimal is scientific and shows its number. -/
theorem writtenScientifically (h : 0 < d.significand) :
    WrittenScientifically d.scientific d.value := by
  have hdigits := d.significant h
  obtain ⟨lead, fraction, hcons⟩ := List.exists_cons_of_ne_nil hdigits.ne_nil
  rw [hcons] at hdigits
  refine ⟨lead, fraction, _, d.point - 1, hdigits.afterFirst, signedNumeral_signedDecimal _, ?_, ?_⟩
  · rw [scientific, hcons]
    simp
  · have hplace : d.point - 1 - fraction.length = d.point - (lead :: fraction).length := by
      rw [List.length_cons]
      omega
    rw [value_eq, hcons, hplace]

end FourLane.Decimal
