/-!
# Texts

Texts are lists of characters here. A property of characters is a list of ranges of code points; blanks
are the characters with the Unicode property `White_Space`. Trimming removes blanks at both ends and keeps
those inside; a text is cut into fields at a separator, of which it has one more than it has separators.

Numerals are natural numbers in base ten and in base sixteen: most significant digit first, lower case, no
leading zeros, and `0` for zero.
-/

namespace FourLane

/- A power is the one of the core library throughout, also where Mathlib's power in a monoid is in scope.
A definition that does not see Mathlib and a lemma that does would otherwise write `2 ^ k` with different
instances, and `rw` and `omega` would not match the two. -/
attribute [scoped instance (high)] instPowNat

end FourLane

namespace FourLane.Text

/-! ## Sets of characters -/

/-- Whether the code point of `c` lies in one of the ranges, each given by its first and last member. -/
def inRanges (ranges : List (Nat × Nat)) (c : Char) : Bool :=
  ranges.any fun range => range.1 ≤ c.toNat && c.toNat ≤ range.2

/-! ## Blanks and fields -/

/-- The code points with the property `White_Space`. -/
def blankRanges : List (Nat × Nat) := [
  (0x9, 0xd), (0x20, 0x20), (0x85, 0x85), (0xa0, 0xa0), (0x1680, 0x1680), (0x2000, 0x200a),
  (0x2028, 0x2029), (0x202f, 0x202f), (0x205f, 0x205f), (0x3000, 0x3000)]

/-- Whether a character counts as white space. -/
def isBlank (c : Char) : Bool := inRanges blankRanges c

/-- A text without the blanks in front. -/
def trimStart (cs : List Char) : List Char := cs.dropWhile isBlank

/-- A text without the blanks behind. -/
def trimEnd (cs : List Char) : List Char := (cs.reverse.dropWhile isBlank).reverse

/-- A text without the blanks at both ends; those inside stay. -/
def trim (cs : List Char) : List Char := trimEnd (trimStart cs)

/-- The pieces of a text between separators. -/
def fields (separator : Char) : List Char → List (List Char)
  | [] => [[]]
  | c :: cs =>
    if c = separator then [] :: fields separator cs
    else
      match fields separator cs with
      -- Never taken: see `fields_ne_nil`.
      | [] => [[c]]
      | field :: rest => (c :: field) :: rest

/-- Even the empty text has one field. -/
theorem fields_ne_nil (separator : Char) (cs : List Char) : fields separator cs ≠ [] := by
  cases cs with
  | nil => simp [fields]
  | cons c cs =>
    simp only [fields]
    split
    · simp
    · split <;> simp

/-- A separator between two texts separates their fields. -/
theorem fields_append (separator : Char) (s t : List Char) :
    fields separator (s ++ separator :: t) = fields separator s ++ fields separator t := by
  induction s with
  | nil => simp [fields]
  | cons c s ih =>
    simp only [List.cons_append, fields, ih]
    split
    · rfl
    · cases h : fields separator s with
      | nil => exact absurd h (fields_ne_nil _ _)
      | cons field rest => rfl

/-! ## Numerals -/

/-- The decimal numeral of a number. -/
def decimal (n : Nat) : List Char := Nat.toDigits 10 n

/-- The hexadecimal numeral of a number. -/
def hexadecimal (n : Nat) : List Char := Nat.toDigits 16 n

/-- The hexadecimal numeral of `n` with zeros in front up to `width` digits. -/
def paddedHexadecimal (width n : Nat) : List Char :=
  List.replicate (width - (hexadecimal n).length) '0' ++ hexadecimal n

/-- The value of a hexadecimal digit, either case. -/
def hexDigit? (c : Char) : Option Nat :=
  if '0' ≤ c ∧ c ≤ '9' then some (c.toNat - 48)
  else if 'a' ≤ c ∧ c ≤ 'f' then some (c.toNat - 87)
  else if 'A' ≤ c ∧ c ≤ 'F' then some (c.toNat - 55)
  else none

/-- The number that a hexadecimal numeral denotes, unless it is empty or holds another character. -/
def readHexadecimal? : List Char → Option Nat
  | [] => none
  | cs => cs.foldlM (fun acc c => (hexDigit? c).map (16 * acc + ·)) 0

theorem hexDigit?_digitChar {d : Nat} (h : d < 16) : hexDigit? d.digitChar = some d := by
  have : ∀ d : Fin 16, hexDigit? d.val.digitChar = some d.val := by decide
  exact this ⟨d, h⟩

/-- Digits are read in the order of writing, so the induction takes off the last one. -/
private theorem foldlM_toDigits (n : Nat) :
    (Nat.toDigits 16 n).foldlM (fun acc c => (hexDigit? c).map (16 * acc + ·)) 0 = some n := by
  induction n using Nat.strongRecOn with
  | ind n ih =>
    by_cases h : n < 16
    · simp [Nat.toDigits_of_lt_base h, hexDigit?_digitChar h]
    · have hn : n / 16 < n := by omega
      have hd : n % 16 < 16 := by omega
      rw [Nat.toDigits_of_base_le (by decide) (by omega), List.foldlM_append, ih _ hn]
      simp [hexDigit?_digitChar hd]
      omega

theorem readHexadecimal?_hexadecimal (n : Nat) : readHexadecimal? (hexadecimal n) = some n := by
  have hne : hexadecimal n ≠ [] := Nat.toDigits_ne_nil
  unfold readHexadecimal?
  split
  · contradiction
  · exact foldlM_toDigits n

/-- Zeros in front do not change the number. -/
theorem readHexadecimal?_paddedHexadecimal (width n : Nat) :
    readHexadecimal? (paddedHexadecimal width n) = some n := by
  unfold paddedHexadecimal
  induction width - (hexadecimal n).length with
  | zero => exact readHexadecimal?_hexadecimal n
  | succ zeros ih =>
    have hne : List.replicate zeros '0' ++ hexadecimal n ≠ [] :=
      List.append_ne_nil_of_right_ne_nil _ Nat.toDigits_ne_nil
    -- A zero in front leaves the number read so far at zero.
    have hzero : ∀ cs ≠ [], readHexadecimal? ('0' :: cs) = readHexadecimal? cs := by
      intro cs hcs
      obtain ⟨c, rest, rfl⟩ := List.exists_cons_of_ne_nil hcs
      rfl
    rw [List.replicate_succ, List.cons_append, hzero _ hne, ih]

/-- Padding is exact for numbers of at most `width` digits. -/
theorem length_paddedHexadecimal {width n : Nat} (hwidth : 0 < width) (h : n < 16 ^ width) :
    (paddedHexadecimal width n).length = width := by
  have hle : (hexadecimal n).length ≤ width := (Nat.length_toDigits_le_iff (by decide) hwidth).2 h
  rw [paddedHexadecimal, List.length_append, List.length_replicate, Nat.sub_add_cancel hle]

theorem exists_digit_of_mem_hexadecimal {n : Nat} {c : Char} (h : c ∈ hexadecimal n) :
    ∃ d < 16, c = d.digitChar := by
  induction n using Nat.strongRecOn with
  | ind n ih =>
    rw [hexadecimal] at h
    by_cases hn : n < 16
    · rw [Nat.toDigits_of_lt_base hn, List.mem_singleton] at h
      exact ⟨n, hn, h⟩
    · rw [Nat.toDigits_of_base_le (by decide) (by omega), List.mem_append, List.mem_singleton] at h
      rcases h with h | h
      · exact ih (n / 16) (by omega) h
      · exact ⟨n % 16, by omega, h⟩

theorem isSome_of_mem_hexadecimal {n : Nat} {c : Char} (h : c ∈ hexadecimal n) :
    (hexDigit? c).isSome := by
  obtain ⟨d, hd, rfl⟩ := exists_digit_of_mem_hexadecimal h
  rw [hexDigit?_digitChar hd]
  rfl

/-- Letters among hexadecimal digits are small. -/
theorem lowerCase_of_mem_paddedHexadecimal {width n : Nat} {c : Char}
    (h : c ∈ paddedHexadecimal width n) : c.isDigit ∨ 'a' ≤ c ∧ c ≤ 'f' := by
  have hdigit : ∀ d < 16, d.digitChar.isDigit ∨ 'a' ≤ d.digitChar ∧ d.digitChar ≤ 'f' := by decide
  rcases List.mem_append.1 h with hzero | hmem
  · rw [List.eq_of_mem_replicate hzero]
    exact .inl rfl
  · obtain ⟨d, hd, rfl⟩ := exists_digit_of_mem_hexadecimal hmem
    exact hdigit d hd

end FourLane.Text
