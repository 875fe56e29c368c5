import FourLane.Proofs.Binary32.Numbers
import FourLane.Proofs.Register.Lanes

/-!
# Comparisons and their masks

`Comparison.Holds` says what a comparison means for the numbers that two words denote, and
`holds_iff` that the library decides it. A comparison of registers answers a mask, and `select` keeps
the lanes of one register under the mask and those of another under its complement. In each lane one
of the two parts is zero, so it does not matter whether the dialect joins them by exclusive or or by
or (`xorWords_zero`, `zero_xorWords`).

The mask of a float comparison says how two lanes stand on the extended line. Where both are numbers
the three comparisons are the decisions of one linear order (`compare_of_value`), so their masks are
complements and conjunctions of one another, and exactly one of less, greater and equal holds. Beside a
NaN nothing holds but `ne`.
-/

namespace FourLane

/-! ## What a comparison means -/

/-- The relation of a comparison: of two numbers for the float ones, where a NaN is none, and of two
signed integers for the others. -/
def Comparison.Holds : Comparison → Word → Word → Prop
  | ge, x, y => ∃ u v, x.value = some u ∧ y.value = some v ∧ v ≤ u
  | lt, x, y => ∃ u v, x.value = some u ∧ y.value = some v ∧ u < v
  | ne, x, y => ¬ ∃ u, x.value = some u ∧ y.value = some u
  | ige, x, y => y.toInt ≤ x.toInt
  | ilt, x, y => x.toInt < y.toInt
  | ine, x, y => x.toInt ≠ y.toInt

/-- A comparison of the library holds where the numbers or the integers compare so. -/
theorem Comparison.holds_iff (c : Comparison) (x y : Word) : c.holds x y = true ↔ c.Holds x y := by
  cases c with
  | ige | ilt | ine => simp [holds, Holds]
  | ge | lt | ne =>
    cases hx : x.value with
    | none =>
      obtain ⟨hlt, hge, hne⟩ := Word.compare_of_nan (y := y) (.inl hx)
      simp [holds, Holds, hx, hlt, hge, hne]
    | some u =>
      cases hy : y.value with
      | none =>
        obtain ⟨hlt, hge, hne⟩ := Word.compare_of_nan (x := x) (.inr hy)
        simp [holds, Holds, hy, hlt, hge, hne]
      | some v =>
        simp [holds, Holds, hx, hy, Word.flt_iff_value hx hy, Word.fge_iff_value hx hy,
          Word.fne_iff_value hx hy, eq_comm]

/-! ## Words under a mask -/

namespace Word

theorem ofMask_and (holds : Bool) (x : Word) : ofMask holds &&& x = if holds then x else 0 := by
  cases holds
  · exact BitVec.zero_and
  · exact BitVec.allOnes_and

theorem ofMask_xor_allOnes (holds : Bool) : ofMask holds ^^^ allOnes = ofMask (!holds) := by
  cases holds
  · exact BitVec.zero_xor
  · exact BitVec.xor_self

end Word

namespace Dialect

theorem plain_xorWords (x y : Word) : plain.xorWords x y = x ^^^ y := rfl

theorem xorWords_zero (d : Dialect) (x : Word) : d.xorWords x 0 = x := by
  unfold xorWords
  split
  · exact BitVec.or_zero
  · exact BitVec.xor_zero

theorem zero_xorWords (d : Dialect) (x : Word) : d.xorWords 0 x = x := by
  unfold xorWords
  split
  · exact BitVec.zero_or
  · exact BitVec.zero_xor

end Dialect

/-! ## Selection -/

namespace Register

/-- The lanes of `t` under the mask `m`, and those of `f` under its complement. -/
def select (d : Dialect) (m t f : Register) : Register :=
  xor d (and m t) (and (xor .plain m (Quad.splat Word.allOnes)) f)

theorem get_select (d : Dialect) {m : Register} (t f : Register) {l : Lane} {holds : Bool}
    (h : m.get l = Word.ofMask holds) :
    (select d m t f).get l = if holds then t.get l else f.get l := by
  rw [select, get_xor, get_and, get_and, get_xor, Quad.get_splat, h, Dialect.plain_xorWords,
    Word.ofMask_xor_allOnes, Word.ofMask_and, Word.ofMask_and]
  cases holds
  · exact d.zero_xorWords (f.get l)
  · exact d.xorWords_zero (t.get l)

theorem get_select_compare (d : Dialect) (c : Comparison) (a b t f : Register) (l : Lane) :
    (select d (compare c a b) t f).get l =
      if c.holds (a.get l) (b.get l) then t.get l else f.get l :=
  get_select d t f (get_compare a b l c)

/-- A register that takes its lanes as the comparison says is the selection. -/
theorem eq_select_of_get (d : Dialect) {c : Comparison} {a b t f r : Register}
    (h : ∀ l, r.get l = if c.holds (a.get l) (b.get l) then t.get l else f.get l) :
    r = select d (compare c a b) t f := by
  apply Quad.ext_get
  intro l
  rw [h l, get_select_compare]

theorem max_eq_select (d : Dialect) (a b : Register) :
    max false a b = select d (compare .ge a b) a b :=
  eq_select_of_get d fun l => get_max a b l false

theorem min_eq_select (d : Dialect) (a b : Register) :
    min false a b = select d (compare .lt a b) a b :=
  eq_select_of_get d fun l => get_min a b l false

theorem imin_eq_select (d : Dialect) (a b : Register) :
    imin a b = select d (compare .ilt a b) a b := by
  apply eq_select_of_get
  intro l
  refine (IntegerBinary.get_apply a b l .imin).trans ?_
  simp [IntegerBinary.onWords, Comparison.holds]

/-- A selection by the mask of a comparison has the lane of the first register where the comparison
holds, and that of the second where it does not, in every dialect. The three selecting instructions
are such selections. -/
theorem selection_by_comparison :
    (∀ d c a b t f l,
      let lane := (select d (compare c a b) t f).get l
      (c.Holds (a.get l) (b.get l) ∧ lane = t.get l) ∨
        (¬ c.Holds (a.get l) (b.get l) ∧ lane = f.get l)) ∧
    ∀ d a b,
      max false a b = select d (compare .ge a b) a b ∧
      min false a b = select d (compare .lt a b) a b ∧
      imin a b = select d (compare .ilt a b) a b := by
  refine ⟨fun d c a b t f l => ?_, fun d a b =>
    ⟨max_eq_select d a b, min_eq_select d a b, imin_eq_select d a b⟩⟩
  dsimp only
  rw [get_select_compare, ← c.holds_iff]
  by_cases h : c.holds (a.get l) (b.get l) = true
  · exact .inl ⟨h, if_pos h⟩
  · exact .inr ⟨h, if_neg h⟩

end Register

namespace Word

/-! ## Masks as truth values -/

/-- The mask `w` says whether `p` holds. -/
def MaskOf (p : Prop) (w : Word) : Prop := (p ∧ w = allOnes) ∨ (¬ p ∧ w = 0)

theorem maskOf_ofMask {p : Prop} {holds : Bool} (h : holds = true ↔ p) : MaskOf p (ofMask holds) := by
  cases holds
  · exact .inr ⟨mt h.2 Bool.false_ne_true, rfl⟩
  · exact .inl ⟨h.1 rfl, rfl⟩

theorem ofMask_eq_zero_iff (p : Bool) : ofMask p = 0 ↔ p = false := by
  cases p <;> decide

theorem not_ofMask (p : Bool) : ~~~ ofMask p = ofMask (!p) := by
  cases p <;> decide

theorem ofMask_and_ofMask (p q : Bool) : ofMask p &&& ofMask q = ofMask (p && q) := by
  cases p <;> cases q <;> decide

/-! ## Two words on the line -/

section

variable {x y : Word} {u v : EReal}

/-- On numbers the comparisons decide the relations of the extended line. -/
theorem compare_of_value (hx : x.value = some u) (hy : y.value = some v) :
    flt x y = decide (u < v) ∧ fge x y = decide (v ≤ u) ∧ fne x y = decide (u ≠ v) := by
  refine ⟨?_, ?_, ?_⟩ <;> rw [Bool.eq_iff_iff, decide_eq_true_iff]
  · exact flt_iff_value hx hy
  · exact fge_iff_value hx hy
  · exact fne_iff_value hx hy

/-- Words are not equal if one has no number or their numbers differ. -/
theorem fne_iff (x y : Word) :
    fne x y = true ↔ x.value = none ∨ y.value = none ∨ x.value ≠ y.value := by
  refine (Comparison.holds_iff .ne x y).trans ?_
  cases hx : x.value <;> cases hy : y.value <;> simp [Comparison.Holds, hx, hy, eq_comm]

/-- Not equal fails on numbers only, where two words differ at most in the sign of a zero. -/
theorem fne_eq_false_iff (x y : Word) :
    fne x y = false ↔ x.value ≠ none ∧ SameUpToZeroSign x y := by
  rw [← Bool.not_eq_true, fne_iff, not_or, not_or, not_not]
  refine and_congr_right fun hx => ?_
  rw [← value_eq_value_iff hx, and_iff_right_iff_imp]
  exact fun heq => heq ▸ hx

/-- Two words are not equal if the first is not at least the second or the second not at least the
first, whether they are numbers or not. -/
theorem fne_eq_not_and_fge (x y : Word) : fne x y = !(fge x y && fge y x) := by
  cases hx : x.value with
  | none =>
    obtain ⟨-, hge, hne⟩ := compare_of_nan (y := y) (.inl hx)
    rw [hge, hne, Bool.false_and, Bool.not_false]
  | some u =>
    cases hy : y.value with
    | none =>
      obtain ⟨-, hge, hne⟩ := compare_of_nan (x := x) (.inr hy)
      rw [hge, hne, Bool.false_and, Bool.not_false]
    | some v =>
      obtain ⟨-, hge, hne⟩ := compare_of_value hx hy
      obtain ⟨-, hle, -⟩ := compare_of_value hy hx
      rw [hge, hle, hne]
      rcases lt_trichotomy u v with h | h | h
      · simp [h.ne, h.not_ge]
      · simp [h]
      · simp [h.ne', h.not_ge]

/-- On numbers one comparison is the complement of the other. -/
theorem fge_eq_not_flt (hx : x.value = some u) (hy : y.value = some v) : fge x y = !flt x y := by
  obtain ⟨hlt, hge, -⟩ := compare_of_value hx hy
  rw [hlt, hge, ← decide_not, decide_eq_decide, not_lt]

/-- Of less, greater and equal exactly one holds. -/
theorem masks_perm (hx : x.value = some u) (hy : y.value = some v) :
    [ofMask (flt x y), ofMask (flt y x), ofMask (!fne x y)].Perm [allOnes, 0, 0] := by
  obtain ⟨hlt, -, hne⟩ := compare_of_value hx hy
  obtain ⟨hgt, -, -⟩ := compare_of_value hy hx
  rw [hlt, hgt, hne]
  rcases lt_trichotomy u v with h | h | h
  · simp [h, h.ne, h.not_gt]
  · simp only [h, lt_self_iff_false, ne_eq, not_true_eq_false, decide_false, Bool.not_false, ofMask_true,
      ofMask_false]
    decide
  · simp only [h, h.ne', h.not_gt, ne_eq, not_false_eq_true, decide_true, decide_false, Bool.not_true,
      ofMask_true, ofMask_false]
    exact .swap _ _ _

end

end Word

namespace Register

/-- The masks of the float comparisons say how the numbers of two lanes stand to each other. Two lanes
that are not equal differ in more than the sign of a zero, and the infinities are the ends of the line. -/
theorem comparisons_decide_order (a b : Register) (l : Lane) :
    let x := a.get l
    let y := b.get l
    let lt := (compare .lt a b).get l
    let gt := (compare .lt b a).get l
    let ge := (compare .ge a b).get l
    let ne := (compare .ne a b).get l
    Word.MaskOf (∃ u v, x.value = some u ∧ y.value = some v ∧ u < v) lt ∧
    Word.MaskOf (∃ u v, x.value = some u ∧ y.value = some v ∧ v ≤ u) ge ∧
    Word.MaskOf (x.value = none ∨ y.value = none ∨ x.value ≠ y.value) ne ∧
    (ne = 0 ↔ x.value ≠ none ∧ Word.SameUpToZeroSign x y) ∧
    (∀ (w : Word) (s : Bool), w.value = some (if s then ⊥ else ⊤) ↔ w = Word.infinity s) ∧
    ne = ~~~ (and (compare .ge a b) (compare .ge b a)).get l ∧
    ((x.value ≠ none ∧ y.value ≠ none ∧ ge = ~~~ lt ∧ [lt, gt, ~~~ ne].Perm [Word.allOnes, 0, 0]) ∨
      ((x.value = none ∨ y.value = none) ∧ lt = 0 ∧ ge = 0)) := by
  intro x y lt gt ge ne
  have hlt : lt = Word.ofMask (Word.flt x y) := get_compare a b l .lt
  have hgt : gt = Word.ofMask (Word.flt y x) := get_compare b a l .lt
  have hge : ge = Word.ofMask (Word.fge x y) := get_compare a b l .ge
  have hle : (compare .ge b a).get l = Word.ofMask (Word.fge y x) := get_compare b a l .ge
  have hne : ne = Word.ofMask (Word.fne x y) := get_compare a b l .ne
  rw [get_and, hle, show (compare .ge a b).get l = ge from rfl, hlt, hgt, hge, hne]
  refine ⟨Word.maskOf_ofMask (Comparison.holds_iff .lt x y),
    Word.maskOf_ofMask (Comparison.holds_iff .ge x y), Word.maskOf_ofMask (Word.fne_iff x y),
    ?_, Word.value_eq_end_iff, ?_, ?_⟩
  · rw [Word.ofMask_eq_zero_iff, Word.fne_eq_false_iff]
  · rw [Word.ofMask_and_ofMask, Word.not_ofMask, ← Word.fne_eq_not_and_fge]
  · rw [Word.not_ofMask, Word.not_ofMask]
    -- With a NaN both comparisons fail; on two numbers they are complements.
    by_cases hnan : x.value = none ∨ y.value = none
    · obtain ⟨hnone, hnone', -⟩ := Word.compare_of_nan hnan
      rw [hnone, hnone']
      exact .inr ⟨hnan, rfl, rfl⟩
    · rw [not_or] at hnan
      obtain ⟨u, hu⟩ := Option.ne_none_iff_exists'.1 hnan.1
      obtain ⟨v, hv⟩ := Option.ne_none_iff_exists'.1 hnan.2
      rw [← Word.fge_eq_not_flt hu hv]
      exact .inl ⟨hnan.1, hnan.2, rfl, Word.masks_perm hu hv⟩

end Register

end FourLane
