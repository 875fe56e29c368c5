import FourLane.Proofs.Binary32.Value
import FourLane.Proofs.Register.Lanes
import FourLane.Proofs.Register.Unfused

/-!
# The clamp modifier is one step after the instruction

`Clamped x y` says what the modifier makes of a word `x`, by the number that `x` denotes.
`saturate_clamped` shows it of the clamp itself, `Computation.get_stored_true` that every computing
instruction applies the clamp to the lane that it would store without the modifier. A copy is no
computation: with the modifier it fills the register with the clamp of lane `x`.
-/

namespace FourLane

namespace Word

/-! ## What the clamp does to a word -/

/-- `y` is `x` moved into the unit interval. A NaN goes to `1.0`; which of the two zeros replaces
what is not positive is left open. -/
structure Clamped (x y : Word) : Prop where
  nan : x.value = none → y = fone
  high : ∀ v, x.value = some v → 1 ≤ v → y = fone
  low : ∀ v, x.value = some v → v ≤ 0 → y.value = some 0
  inside : ∀ v, x.value = some v → 0 < v → v < 1 → y = x

/-- The word denotes a number from zero to one. -/
def InUnitInterval (w : Word) : Prop := ∃ v, w.value = some v ∧ 0 ≤ v ∧ v ≤ 1

theorem value_zero : (0 : Word).value = some 0 := by
  have hexp : exponentField 0 = 0 := by decide
  have hsig : significand 0 = 0 := by decide
  rw [value, hexp, if_pos (by decide), rational, hsig]
  norm_num

/-- A clamped word is in the unit interval. -/
theorem Clamped.inUnitInterval {x y : Word} (h : Clamped x y) : InUnitInterval y := by
  cases hx : x.value with
  | none =>
    rw [h.nan hx]
    exact ⟨1, value_fone, zero_le_one, le_rfl⟩
  | some v =>
    rcases le_or_gt 1 v with hhigh | hhigh
    · rw [h.high v hx hhigh]
      exact ⟨1, value_fone, zero_le_one, le_rfl⟩
    · rcases le_or_gt v 0 with hlow | hlow
      · exact ⟨0, h.low v hx hlow, le_rfl, zero_le_one⟩
      · rw [h.inside v hx hlow hhigh]
        exact ⟨v, hx, hlow.le, hhigh.le⟩

/-- Beside a NaN the clamp keeps the other operand of its first step, which is `1.0`. -/
theorem saturate_of_nan {x : Word} (h : x.isNaN = true) : saturate x = fone := by
  have hmin : minNumber fone x = fone := by
    have hone : fone.isNaN = false := by decide
    simp only [minNumber, hone, h, Bool.false_eq_true, if_false, if_true]
  rw [saturate, hmin]
  decide

/-- On a number the clamp is decided by two comparisons. -/
theorem saturate_of_not_nan {x : Word} (h : x.isNaN = false) :
    saturate x = if flt x fone then (if flt 0 x then x else 0) else fone := by
  have hmin : minNumber fone x = if flt x fone then x else fone := by
    have hone : fone.isNaN = false := by decide
    simp only [minNumber, hone, h, Bool.false_eq_true, if_false]
  have hzero : isNaN 0 = false := by decide
  rw [saturate, hmin]
  split
  · simp only [maxNumber, hzero, h, Bool.false_eq_true, if_false]
  · decide

/-- The library clamps, NaN included. -/
theorem saturate_clamped (x : Word) : Clamped x (saturate x) := by
  have number {v : EReal} (hv : x.value = some v) : x.isNaN = false := by
    rw [← value_ne_none_iff, hv]
    exact Option.some_ne_none v
  have below {v : EReal} (hv : x.value = some v) : flt x fone = true ↔ v < 1 :=
    flt_iff_value hv value_fone
  have above {v : EReal} (hv : x.value = some v) : flt 0 x = true ↔ 0 < v :=
    flt_iff_value value_zero hv
  refine ⟨fun hx => ?_, fun v hv h => ?_, fun v hv h => ?_, fun v hv hlow hhigh => ?_⟩
  · exact saturate_of_nan ((Binary32.isNaN_iff_value x).2 hx)
  · rw [saturate_of_not_nan (number hv), if_neg (mt (below hv).1 h.not_gt)]
  · rw [saturate_of_not_nan (number hv), if_pos ((below hv).2 (h.trans_lt zero_lt_one)),
      if_neg (mt (above hv).1 h.not_gt)]
    exact value_zero
  · rw [saturate_of_not_nan (number hv), if_pos ((below hv).2 hhigh), if_pos ((above hv).2 hlow)]

end Word

/-! ## The modifier on instructions -/

/-- An operation that takes the modifier and computes what it stores: every one but the copy. -/
inductive Computation where
  | unary (op : FloatUnary) (a : Register)
  | binary (op : FloatBinary) (a b : Register)
  | dot (width : Nat) (a b : Register)
  | mad (choice : DialectChoice) (a b c : Register)

namespace Computation

/-- The instruction, with the modifier or without it. -/
def instruction (sat : Bool) : Computation → Instruction Register
  | unary op a => .floatUnary op sat a
  | binary op a b => .floatBinary op sat a b
  | dot width a b => .dot width sat a b
  | mad choice a b c => .mad choice sat a b c

/-- What the instruction stores while `d` is current; a single word stands in every lane. -/
def stored (d : Dialect) (sat : Bool) (c : Computation) : Register :=
  ((c.instruction sat).result d).toRegister

/-- With the modifier, each lane stores the clamp of what it stores without. -/
theorem get_stored_true (d : Dialect) (c : Computation) (l : Lane) :
    (c.stored d true).get l = Word.saturate ((c.stored d false).get l) := by
  cases c with
  | unary op a => exact (op.get_apply a l true).trans (congrArg _ (op.get_apply a l false).symm)
  | binary op a b => exact (op.get_apply a b l true).trans (congrArg _ (op.get_apply a b l false).symm)
  | dot width a b =>
    change (Quad.splat _).get l = Word.saturate ((Quad.splat _).get l)
    rw [Quad.get_splat, Quad.get_splat]
    exact Register.dot_eq_store a b width true
  | mad choice a b c =>
    change (Register.mad _ true a b c).get l = Word.saturate ((Register.mad _ false a b c).get l)
    rw [Register.get_mad, Register.get_mad, Word.store_true, Word.store_false]

end Computation

/-- The modifier clamps each lane of a computation once, after the last rounding. A copy with the
modifier is the exception: it stores the clamp of lane `x` everywhere. -/
theorem saturation_is_last_step (d : Dialect) :
    (∀ (c : Computation) (l : Lane),
      Word.Clamped ((c.stored d false).get l) ((c.stored d true).get l) ∧
        Word.InUnitInterval ((c.stored d true).get l)) ∧
    -- No link of a composite instruction carries the modifier but the last.
    (∀ sat a b c, Register.mad d sat a b c =
      Register.add sat (Register.mul false a (Register.factor d b)) c) ∧
    (∀ sat a, Register.rsq sat a =
      Register.div sat (Quad.splat Word.fone) (Register.sqrt false a)) ∧
    (∀ sat a b (l : Lane), Quad.splat (Register.dot (l.index + 1) sat a b) =
      Register.add sat (Quad.splat (Register.dot l.index false a b))
        (Quad.splat ((Register.mul false a b).get l))) ∧
    (∀ a, ∃ w, Word.Clamped a.x w ∧ Word.InUnitInterval w ∧
      (Instruction.mov true a).result d = .register (Quad.splat w)) ∧
    (∀ a, (Instruction.mov false a).result d = .register a) := by
  refine ⟨fun c l => ?_, Register.mad_eq_add_mul d, Register.rsq_eq_div_sqrt,
    Register.splat_dot_succ, fun a => ?_, fun a => rfl⟩
  · rw [c.get_stored_true]
    have h := Word.saturate_clamped ((c.stored d false).get l)
    exact ⟨h, h.inUnitInterval⟩
  · have h := Word.saturate_clamped a.x
    exact ⟨Word.saturate a.x, h, h.inUnitInterval, rfl⟩

end FourLane
