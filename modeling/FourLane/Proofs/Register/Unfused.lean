import FourLane.Register.Instructions
import Mathlib.Data.List.Induction

/-!
# Composite instructions are chains of single ones

Multiply-add, one over the square root and the dot product store what a chain of the instructions
they are made of stores. Only the last link of the chain carries the clamp modifier, so nothing on
the way is clamped.

A dot product is a chain of multiply-adds as well, `accumulate`, on registers that hold one lane
everywhere. A dot product adds to the sum on the left and a multiply-add to the one on the right, so
this rests on `fadd_comm`. On equal lanes a dialect cannot be seen (`factor_splat`).
-/

namespace FourLane

/-- The lanes up to `l` are the lanes before it and then `l`. -/
theorem Lane.take_index_succ (l : Lane) : all.take (l.index + 1) = all.take l.index ++ [l] := by
  cases l <;> rfl

theorem Lane.ne_of_mem_take_index (l : Lane) : ∀ k ∈ all.take l.index, k ≠ l := by
  cases l <;> decide

namespace Register

open Word (fadd fmul store)

/-- A multiply-add rounds its product before it adds. -/
theorem mad_eq_add_mul (d : Dialect) (sat : Bool) (a b c : Register) :
    mad d sat a b c = add sat (mul false a (factor d b)) c :=
  rfl

/-- An inverse root is a quotient of a stored root. -/
theorem rsq_eq_div_sqrt (sat : Bool) (a : Register) :
    rsq sat a = div sat (Quad.splat Word.fone) (sqrt false a) :=
  rfl

/-- A dot product adds the product of its last lane to the dot product of the lanes before. -/
theorem splat_dot_succ (sat : Bool) (a b : Register) (l : Lane) :
    Quad.splat (dot (l.index + 1) sat a b) =
      add sat (Quad.splat (dot l.index false a b)) (Quad.splat ((mul false a b).get l)) := by
  cases l <;> rfl

/-! ## A dot product by multiply-adds -/

theorem factor_eq_ite (d : Dialect) (b : Register) :
    factor d b = if d.bits.getLsbD 0 then Quad.splat (b.get .x) else b := by
  rw [factor, d.has_factorFromLaneX]
  rfl

theorem factor_splat (d : Dialect) (w : Word) : factor d (Quad.splat w) = Quad.splat w := by
  unfold factor
  split <;> rfl

theorem mad_splat (d : Dialect) (sat : Bool) (x y z : Word) :
    mad d sat (Quad.splat x) (Quad.splat y) (Quad.splat z) =
      Quad.splat (store sat (fadd z (fmul x y))) := by
  rw [mad, factor_splat, Word.fadd_comm z]
  rfl

/-- Multiply-adds onto the zero register, one for each lane in a list. The link of lane `l` spreads
that lane of both registers over all lanes, and has the modifier `sat l`. -/
def accumulate (d : Dialect) (sat : Lane → Bool) (a b : Register) (lanes : List Lane) : Register :=
  lanes.foldl (fun acc l => mad d (sat l) (Quad.splat (a.get l)) (Quad.splat (b.get l)) acc) zero

variable (d : Dialect) (a b : Register)

theorem accumulate_concat (sat : Lane → Bool) (lanes : List Lane) (l : Lane) :
    accumulate d sat a b (lanes ++ [l]) =
      mad d (sat l) (Quad.splat (a.get l)) (Quad.splat (b.get l)) (accumulate d sat a b lanes) := by
  rw [accumulate, List.foldl_append]
  rfl

/-- Without the modifier, every lane of the accumulator is the sum of the products so far. -/
theorem accumulate_of_unsaturated {sat : Lane → Bool} {lanes : List Lane}
    (h : ∀ l ∈ lanes, sat l = false) :
    accumulate d sat a b lanes =
      Quad.splat (lanes.foldl (fun sum l => fadd sum (fmul (a.get l) (b.get l))) 0) := by
  induction lanes using List.reverseRecOn with
  | nil => rfl
  | append_singleton lanes l ih =>
    have hl : sat l = false := h l (by simp)
    have hlanes := ih fun k hk => h k (List.mem_append_left _ hk)
    rw [accumulate_concat, hlanes, hl, mad_splat, List.foldl_append]
    rfl

/-- A dot product is a chain of multiply-adds on registers with equal lanes. -/
theorem splat_dot_eq_accumulate (sat : Bool) (last : Lane) :
    Quad.splat (dot (last.index + 1) sat a b) =
      accumulate d (fun l => sat && l = last) a b (Lane.all.take (last.index + 1)) := by
  -- Every link but the last is without the modifier, whatever `sat` is.
  have hbefore : ∀ l ∈ Lane.all.take last.index, (sat && decide (l = last)) = false := by
    intro l hl
    simp [last.ne_of_mem_take_index l hl]
  have hlast : (sat && decide (last = last)) = sat := by simp
  rw [last.take_index_succ, accumulate_concat, accumulate_of_unsaturated d a b hbefore, hlast,
    mad_splat, dot, last.take_index_succ, List.foldl_append]
  rfl

/-- A multiply-add is a product and a sum, each rounded, and a dot product of the lanes up to `last`
is a chain of multiply-adds of which the last one carries the modifier. -/
theorem mad_and_dot_unfused (sat : Bool) :
    (∀ c, mad d sat a b c =
      add sat (mul false a (if d.bits.getLsbD 0 then Quad.splat (b.get .x) else b)) c) ∧
    ∀ last l : Lane, dot (last.index + 1) sat a b =
      (accumulate d (fun k => sat && k = last) a b (Lane.all.take (last.index + 1))).get l := by
  refine ⟨fun c => ?_, fun last l => ?_⟩
  · rw [mad_eq_add_mul, factor_eq_ite]
  · rw [← splat_dot_eq_accumulate, Quad.get_splat]

end Register

end FourLane
