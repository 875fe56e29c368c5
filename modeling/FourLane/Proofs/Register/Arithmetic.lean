import FourLane.Proofs.Binary32.Rounding
import FourLane.Proofs.Register.Lanes

/-!
# Sums, products and quotients are correctly rounded

`exactSum`, `exactProduct` and `exactQuotient` say what two words come to before anything is rounded:
a word where an operand is a NaN, an infinity or a zero that decides the result, and the rational
number of the operation otherwise. Addition, multiplication and division round that once, and no other
word does.

The proofs go by `Word.reading`, which gives what the operations compute on for each kind of operand.
Products and quotients of nonzero numbers are fractions of units and go to `rounds_rounded`. Sums are
whole numbers of units with a sign of their own, so the sign of the total is found first.
-/

namespace FourLane

namespace Word

/-! ## Exact results of two words -/

/-- The NaN of every computed result that is no number. -/
def quietNaN : Word := 0x7fc00000

theorem kind_quietNaN : quietNaN.kind = .nan := by
  rw [kind, if_neg (by decide), if_neg (by decide)]

/-- An exact sum of zero is positive unless both terms are negative zeros. -/
def finiteSum (x y : Word) : Exact :=
  let v := x.rational + y.rational
  if v = 0 then .word (zero (x = zero true ∧ y = zero true)) else .number (v < 0) v

theorem finiteSum_isStoredAs_iff (x y w : Word) :
    (finiteSum x y).IsStoredAs w ↔
      (x.rational + y.rational = 0 ∧ w = zero (x = zero true ∧ y = zero true)) ∨
        (x.rational + y.rational ≠ 0 ∧
          Rounds (x.rational + y.rational < 0) (x.rational + y.rational) w) := by
  by_cases h : x.rational + y.rational = 0 <;> simp [finiteSum, Exact.IsStoredAs, h]

/-- What the sum of two words is before it is rounded, by their kinds. -/
def exactSum (x y : Word) : Exact :=
  match x.kind, y.kind with
  | .nan, _ | _, .nan => .word quietNaN
  | .infinite, .infinite => .word (if x = y then x else quietNaN)
  | .infinite, _ => .word x
  | _, .infinite => .word y
  | _, _ => finiteSum x y

/-- What decides an exact sum: a NaN or two opposite infinities, an infinity on one side, or the finite
terms. -/
inductive SumCase (x y : Word) : Exact → Prop
  | quiet : SumCase x y (.word quietNaN)
  | left (hx : x.kind = .infinite) (hy : y = x ∨ y.IsFinite) : SumCase x y (.word x)
  | right (hx : x.IsFinite) (hy : y.kind = .infinite) : SumCase x y (.word y)
  | finite (hx : x.IsFinite) (hy : y.IsFinite) : SumCase x y (finiteSum x y)

/-- The sum of two words, one case for each way it comes about. -/
theorem exactSum_cases (x y : Word) : SumCase x y (exactSum x y) := by
  have hxfin := isFinite_iff_kind x
  have hyfin := isFinite_iff_kind y
  unfold exactSum
  cases hx : x.kind with
  | nan => exact .quiet
  | infinite =>
    cases hy : y.kind with
    | nan => exact .quiet
    | infinite =>
      dsimp only
      split
      · rename_i heq
        exact .left hx (.inl heq.symm)
      · exact .quiet
    | zero => exact .left hx (.inr (hyfin.2 (.inl hy)))
    | nonzero => exact .left hx (.inr (hyfin.2 (.inr hy)))
  | zero | nonzero =>
    have hx' : x.IsFinite := hxfin.2 (by simp [hx])
    cases hy : y.kind with
    | nan => exact .quiet
    | infinite => exact .right hx' hy
    | zero | nonzero => exact .finite hx' (hyfin.2 (by simp [hy]))

/-- Unlike a sum, a product has the exclusive or of the signs also where it is a zero. -/
def exactProduct (x y : Word) : Exact :=
  match x.kind, y.kind with
  | .nan, _ | _, .nan | .infinite, .zero | .zero, .infinite => .word quietNaN
  | .infinite, _ | _, .infinite => .word (infinity (x.msb ^^ y.msb))
  | .zero, _ | _, .zero => .word (zero (x.msb ^^ y.msb))
  | .nonzero, .nonzero => .number (x.msb ^^ y.msb) (x.rational * y.rational)

/-- What the quotient of two words is before it is rounded, by their kinds. -/
def exactQuotient (x y : Word) : Exact :=
  match x.kind, y.kind with
  | .nan, _ | _, .nan | .infinite, .infinite | .zero, .zero => .word quietNaN
  | .infinite, _ | .nonzero, .zero => .word (infinity (x.msb ^^ y.msb))
  | .zero, _ | .nonzero, .infinite => .word (zero (x.msb ^^ y.msb))
  | .nonzero, .nonzero => .number (x.msb ^^ y.msb) (x.rational / y.rational)

/-! ## The operations of the library -/

theorem toWord_infinity (negative : Bool) :
    (Binary32.infinity negative).toWord = infinity negative :=
  signed_infinityBits negative

theorem toWord_zero (negative : Bool) : (Binary32.finite negative 0).toWord = zero negative :=
  signed_zero negative

theorem toWord_rounded_zero (negative : Bool) (den : Nat) :
    (Binary32.rounded negative 0 den).toWord = zero negative := by
  have hnone : Binary32.roundUnits 0 den = 0 := by
    simp [Binary32.roundUnits, Binary32.nearestEven]
  have hover := Binary32.unitsPerOne_pos.trans Binary32.unitsPerOne_lt_overflowUnits
  rw [Binary32.rounded, hnone, if_pos hover, toWord_zero]

/-- Where a sum is zero, both signs are set only if both words are the negative zero. -/
theorem zero_of_sum_eq_zero {x y : Word} (h : x.rational + y.rational = 0) :
    (x.msb && y.msb) = decide (x = zero true ∧ y = zero true) := by
  rw [Bool.eq_iff_iff, Bool.and_eq_true, decide_eq_true_iff]
  constructor
  · rintro ⟨hx, hy⟩
    have hxle := rational_nonpos hx
    have hyle := rational_nonpos hy
    have hxzero := eq_zero (by linarith : x.rational = 0)
    have hyzero := eq_zero (by linarith : y.rational = 0)
    rw [hx] at hxzero
    rw [hy] at hyzero
    exact ⟨hxzero, hyzero⟩
  · rintro ⟨rfl, rfl⟩
    exact ⟨rfl, rfl⟩

theorem exactProduct_stored (x y : Word) : (exactProduct x y).IsStoredAs (fmul x y) := by
  have hx := x.reading
  have hy := y.reading
  unfold exactProduct fmul
  -- Kinds and data are taken apart together, so that either side computes.
  generalize x.kind = k, Binary32.ofWord x = d at hx
  generalize y.kind = k', Binary32.ofWord y = d' at hy
  cases hx with
  | nan => cases hy <;> rfl
  | infinite =>
    cases hy with
    | nan | zero => rfl
    | infinite => exact toWord_infinity _
    | nonzero _ hrat =>
      dsimp only [Binary32.mul]
      rw [if_neg (mt y.rational_eq_zero_iff.2 hrat)]
      exact toWord_infinity _
  | zero =>
    cases hy with
    | nan | infinite => rfl
    | zero | nonzero =>
      dsimp only [Binary32.mul]
      rw [Nat.zero_mul]
      exact toWord_rounded_zero ..
  | nonzero _ hrat =>
    cases hy with
    | nan => rfl
    | infinite =>
      dsimp only [Binary32.mul]
      rw [if_neg (mt x.rational_eq_zero_iff.2 hrat)]
      exact toWord_infinity _
    | zero =>
      dsimp only [Binary32.mul]
      rw [Nat.mul_zero]
      exact toWord_rounded_zero ..
    | nonzero =>
      dsimp only [Binary32.mul]
      -- Two finite words: the units are multiplied, and one of the two units is divided out.
      refine Binary32.rounds_rounded _ _ Binary32.unitsPerOne_pos ?_
      rw [x.rational_eq_units, y.rational_eq_units, ← signFactor_mul]
      push_cast
      ring

-- Half of the least negative number is halfway to zero, which is even, and stays negative.
example : fmul 0x80000001 0x3f000000 = zero true := by decide +kernel

theorem exactQuotient_stored (x y : Word) : (exactQuotient x y).IsStoredAs (fdiv x y) := by
  have hx := x.reading
  have hy := y.reading
  unfold exactQuotient fdiv
  generalize x.kind = k, Binary32.ofWord x = d at hx
  generalize y.kind = k', Binary32.ofWord y = d' at hy
  cases hx with
  | nan => cases hy <;> rfl
  | infinite =>
    cases hy with
    | nan | infinite => rfl
    | zero | nonzero => exact toWord_infinity _
  | zero =>
    cases hy with
    | nan | zero => rfl
    | infinite => exact toWord_zero _
    | nonzero _ hrat =>
      dsimp only [Binary32.div]
      rw [if_neg (mt y.rational_eq_zero_iff.2 hrat), Nat.zero_mul]
      exact toWord_rounded_zero ..
  | nonzero _ hrat =>
    cases hy with
    | nan => rfl
    | infinite => exact toWord_zero _
    | zero =>
      dsimp only [Binary32.div]
      rw [if_pos rfl, if_neg (mt x.rational_eq_zero_iff.2 hrat)]
      exact toWord_infinity _
    | nonzero _ hyrat =>
      have hunits := mt y.rational_eq_zero_iff.2 hyrat
      dsimp only [Binary32.div]
      rw [if_neg hunits]
      refine Binary32.rounds_rounded _ _ (Nat.pos_of_ne_zero hunits) ?_
      -- The units of both words cancel up to the one that the library multiplies by.
      have hone := Binary32.cast_unitsPerOne_pos.ne'
      rw [x.rational_eq_units, y.rational_eq_units, mul_div_mul_comm, signFactor_div,
        div_div_div_cancel_right₀ hone]
      push_cast
      rw [mul_div_right_comm, mul_div_cancel_right₀ _ hone]

theorem finiteSum_stored {x y : Word} (hx : x.IsFinite) (hy : y.IsFinite) :
    (finiteSum x y).IsStoredAs (fadd x y) := by
  have hone := Binary32.cast_unitsPerOne_pos
  obtain ⟨v, hsum⟩ : ∃ v, v = x.rational + y.rational := ⟨_, rfl⟩
  obtain ⟨total, htotal⟩ : ∃ total, total =
    Binary32.signedUnits x.msb (Binary32.unitsOfBits x.magnitude) +
      Binary32.signedUnits y.msb (Binary32.unitsOfBits y.magnitude) := ⟨_, rfl⟩
  have hv : v = total / Binary32.unitsPerOne := by
    rw [hsum, x.rational_eq_signedUnits, y.rational_eq_signedUnits, ← add_div, htotal, Int.cast_add]
  have hzero : v = 0 ↔ total = 0 := by
    rw [hv, div_eq_zero_iff, or_iff_left hone.ne', Int.cast_eq_zero]
  have hneg : v < 0 ↔ total < 0 := by
    rw [hv, div_lt_iff₀ hone, zero_mul, Int.cast_lt_zero]
  rw [fadd, ofWord_of_isFinite hx, ofWord_of_isFinite hy]
  dsimp only [finiteSum, Binary32.add]
  rw [← htotal, ← hsum]
  by_cases h : total = 0
  · rw [if_pos h, if_pos (hzero.2 h), ← zero_of_sum_eq_zero (hsum.symm.trans (hzero.2 h))]
    exact toWord_zero _
  · rw [if_neg h, if_neg (mt hzero.1 h)]
    have hsign : decide (v < 0) = decide (total < 0) := decide_eq_decide.2 hneg
    change Rounds (v < 0) v _
    rw [hsign]
    refine Binary32.rounds_rounded _ _ Nat.one_pos ?_
    rw [Nat.cast_one, div_one, ← mul_div_assoc, signFactor_mul_natAbs, hv]

/-- The library stores the exact sum. -/
theorem exactSum_stored (x y : Word) : (exactSum x y).IsStoredAs (fadd x y) := by
  -- Finite words are added whatever their kinds are, so this case is settled before the others.
  have hsum : x.IsFinite → y.IsFinite → _ := finiteSum_stored
  have hx := x.reading
  have hy := y.reading
  unfold exactSum fadd at *
  generalize x.kind = k, Binary32.ofWord x = d at hx hsum
  generalize y.kind = k', Binary32.ofWord y = d' at hy hsum
  cases hx with
  | nan => cases hy <;> rfl
  | infinite hxinf =>
    cases hy with
    | nan => rfl
    | infinite hyinf =>
      have heq : x = y ↔ x.msb = y.msb := by
        refine ⟨congrArg _, fun h => ?_⟩
        rw [hxinf, hyinf, h]
      change (if x.msb = y.msb then _ else _ : Binary32).toWord = if x = y then x else quietNaN
      by_cases h : x.msb = y.msb
      · rw [if_pos h, if_pos (heq.2 h)]
        exact (toWord_infinity _).trans hxinf.symm
      · rw [if_neg h, if_neg (mt heq.1 h)]
        exact Binary32.toWord_quietNaN
    | zero | nonzero => exact (toWord_infinity _).trans hxinf.symm
  | zero _ hxfin | nonzero hxfin =>
    cases hy with
    | nan => rfl
    | infinite hyinf => exact (toWord_infinity _).trans hyinf.symm
    | zero _ hyfin | nonzero hyfin => exact hsum hxfin hyfin

theorem fadd_of_nan (x : Word) {y : Word} (h : y.kind = .nan) : fadd x y = quietNaN := by
  have hstored := exactSum_stored x y
  rw [exactSum, h] at hstored
  cases hx : x.kind <;> rw [hx] at hstored <;> exact hstored

end Word

/-! ## Registers

A word is what a lane of the result holds if and only if it stores the exact result of the two lanes. -/

namespace Register

variable (a b : Register) (l : Lane) (w : Word)

/-- Each lane of a sum stores the exact sum of the two lanes, and nothing else does. -/
theorem add_correctly_rounded :
    (Word.exactSum (a.get l) (b.get l)).IsStoredAs w ↔ (add false a b).get l = w := by
  rw [get_add, Word.store_false]
  exact (Word.exactSum_stored _ _).iff w

/-- Each lane of a product stores the exact product of the two lanes, and nothing else does. -/
theorem mul_correctly_rounded :
    (Word.exactProduct (a.get l) (b.get l)).IsStoredAs w ↔ (mul false a b).get l = w := by
  rw [get_mul, Word.store_false]
  exact (Word.exactProduct_stored _ _).iff w

/-- Each lane of a quotient stores the exact quotient of the two lanes, and nothing else does. -/
theorem div_correctly_rounded :
    (Word.exactQuotient (a.get l) (b.get l)).IsStoredAs w ↔ (div false a b).get l = w := by
  rw [get_div, Word.store_false]
  exact (Word.exactQuotient_stored _ _).iff w

end Register

end FourLane
