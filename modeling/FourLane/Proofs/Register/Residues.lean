import FourLane.Proofs.Register.MinMax
import FourLane.Proofs.Register.Switches
import Mathlib.Algebra.BigOperators.Group.List.Basic
import Mathlib.Data.Int.ModEq

/-!
# Integer instructions compute modulo `2 ^ 32`

The pattern of an integer is a ring map, so wrapping around after every sum and product comes to the same
as wrapping once, at the end (`get_eval`): a tree of integer instructions holds the residue of the integer
that it would have if nothing were cut off, whichever of the two readings its registers are given in. The
one thing that crosses lanes is the second factor of a multiply-add, in a dialect that spreads lane `x`.

A polynomial by multiply-adds and a sum in some order and bracketing are such trees.
-/

namespace FourLane

namespace Word

/-! ## Residues -/

/-- The signed or the unsigned reading of a word. -/
def read (signed : Bool) (w : Word) : Int := if signed then w.toInt else w.toNat

/-- The signed reading of `w` is the only integer of its range that is `k` modulo `2 ^ 32`, and the
unsigned reading is the remainder of `k`. -/
def IsResidueOf (k : Int) (w : Word) : Prop :=
  (∀ j : Int, -2 ^ 31 ≤ j ∧ j < 2 ^ 31 ∧ j ≡ k [ZMOD 2 ^ 32] ↔ j = w.toInt) ∧ (w.toNat : Int) = k % 2 ^ 32

theorem ofInt_read (signed : Bool) (w : Word) : ofInt (w.read signed) = w := by
  cases signed
  · exact ofInt_toNat w
  · exact ofInt_toInt w

theorem ofInt_eq_iff_modEq (j k : Int) : ofInt j = ofInt k ↔ j ≡ k [ZMOD 2 ^ 32] := by
  rw [Int.modEq_comm, Int.modEq_iff_dvd]
  exact ofInt_eq_ofInt_iff j k

@[simp] theorem ofInt_add (j k : Int) : ofInt (j + k) = ofInt j + ofInt k := BitVec.ofInt_add ..

@[simp] theorem ofInt_mul (j k : Int) : ofInt (j * k) = ofInt j * ofInt k := BitVec.ofInt_mul ..

theorem isResidueOf_ofInt (k : Int) : IsResidueOf k (ofInt k) := by
  refine ⟨fun j => ⟨?_, ?_⟩, ?_⟩
  · rintro ⟨hlow, hhigh, hmod⟩
    rw [← (ofInt_eq_iff_modEq j k).2 hmod]
    exact (BitVec.toInt_ofInt_eq_self (by decide) (by simpa using hlow) (by simpa using hhigh)).symm
  · rintro rfl
    refine ⟨BitVec.le_toInt _, BitVec.toInt_lt, ?_⟩
    rw [← ofInt_eq_iff_modEq, ofInt_toInt]
  · rw [ofInt, BitVec.toNat_ofInt, Int.toNat_of_nonneg (Int.emod_nonneg _ (by decide))]
    rfl

end Word

/-! ## Trees of integer instructions -/

/-- Sums and multiply-adds over registers; each multiply-add follows a dialect of its own. -/
inductive IntegerTree where
  | leaf (a : Register)
  | sum (left right : IntegerTree)
  | multiplyAdd (d : Dialect) (left right summand : IntegerTree)

namespace IntegerTree

/-- What the instructions of a tree compute. -/
def eval : IntegerTree → Register
  | leaf a => a
  | sum s t => Register.iadd s.eval t.eval
  | multiplyAdd d s t u => Register.imad d s.eval t.eval u.eval

/-- The integer of a tree in one lane, with nothing cut off. -/
def exact (signed : Bool) : IntegerTree → Lane → Int
  | leaf a, l => (a.get l).read signed
  | sum s t, l => s.exact signed l + t.exact signed l
  | multiplyAdd d s t u, l =>
    s.exact signed l * t.exact signed (if d.bits.getLsbD 0 then .x else l) + u.exact signed l

/-- A tree of instructions computes the word of its exact value, in either reading. -/
theorem get_eval (t : IntegerTree) (signed : Bool) (l : Lane) :
    t.eval.get l = Word.ofInt (t.exact signed l) := by
  induction t generalizing l with
  | leaf a => exact (Word.ofInt_read signed _).symm
  | sum s t ihs iht =>
    simp [eval, exact, Register.get_iadd, ihs, iht]
  | multiplyAdd d s t u ihs iht ihu =>
    simp [eval, exact, Register.get_imad, Register.get_factor, Dialect.factorLane, d.has_factorFromLaneX,
      ihs, iht, ihu]

/-! ## Polynomials -/

/-- Multiply-adds by `x` onto a tree, one for each coefficient. -/
def horner (d : Dialect) (x : Register) (start : IntegerTree) (coefficients : List Register) :
    IntegerTree :=
  coefficients.foldl (fun t c => multiplyAdd d t (leaf x) (leaf c)) start

/-- Horner's rule as a tree is the loop of multiply-adds. -/
theorem eval_horner (d : Dialect) (x : Register) (start : IntegerTree) (coefficients : List Register) :
    (horner d x start coefficients).eval =
      coefficients.foldl (fun acc c => Register.imad d acc x c) start.eval := by
  induction coefficients generalizing start with
  | nil => rfl
  | cons c rest ih => exact ih _

end IntegerTree

/-- The polynomial with these coefficients, the leading one first, at `x`. -/
def polynomialAt (x : Int) : List Int → Int
  | [] => 0
  | c :: rest => c * x ^ rest.length + polynomialAt x rest

/-- A multiply-add joins the first two coefficients to the leading one of a shorter polynomial. -/
theorem polynomialAt_cons_cons (x b c : Int) (rest : List Int) :
    polynomialAt x (b :: c :: rest) = polynomialAt x ((b * x + c) :: rest) := by
  simp only [polynomialAt, List.length_cons]
  ring

/-- The exact value of Horner's tree is that of the polynomial, in either reading. -/
theorem IntegerTree.exact_horner (d : Dialect) (x : Register) (start : IntegerTree)
    (coefficients : List Register) (signed : Bool) (l : Lane) :
    (horner d x start coefficients).exact signed l =
      polynomialAt ((x.get (if d.bits.getLsbD 0 then .x else l)).read signed)
        (start.exact signed l :: coefficients.map fun c => (c.get l).read signed) := by
  induction coefficients generalizing start with
  | nil => simp [horner, polynomialAt]
  | cons c rest ih =>
    rw [List.map_cons, polynomialAt_cons_cons]
    exact ih _

namespace Register

/-! ## Sums -/

theorem fold_add {α : Type} [AddCommMonoid α] (t : Bracketing α) : t.fold (· + ·) = t.operands.sum := by
  induction t with
  | single a => simp [Bracketing.fold, Bracketing.operands]
  | join left right ihl ihr => simp [Bracketing.fold, Bracketing.operands, ihl, ihr]

/-- A sum of registers is the same in every order and bracketing. -/
theorem fold_iadd_of_perm {s t : Bracketing Register} (h : s.operands.Perm t.operands) :
    s.fold iadd = t.fold iadd := by
  apply Quad.ext_get
  intro l
  have hlane (a b : Register) : (iadd a b).get l = a.get l + b.get l := get_iadd a b l
  rw [Bracketing.apply_fold (Quad.get · l) hlane, Bracketing.apply_fold (Quad.get · l) hlane,
    fold_add, fold_add, Bracketing.operands_map, Bracketing.operands_map]
  exact (h.map _).sum_eq

/-- A tree of integer instructions holds the residue of its exact integer in every lane, for both readings
of its registers. Repeated multiply-adds by `x` are the polynomial at `x`, or at lane `x` of it in a
dialect that spreads that lane, and the order and the bracketing of a sum do not count. -/
theorem integer_trees_hold_residues :
    (∀ (t : IntegerTree) (signed : Bool) (l : Lane),
      Word.IsResidueOf (t.exact signed l) (t.eval.get l)) ∧
    (∀ (d : Dialect) (x start : Register) (coefficients : List Register) (signed : Bool) (l : Lane),
      Word.IsResidueOf
        (polynomialAt ((x.get (if d.bits.getLsbD 0 then .x else l)).read signed)
          ((start :: coefficients).map fun c => (c.get l).read signed))
        ((coefficients.foldl (fun acc c => imad d acc x c) start).get l)) ∧
    ∀ s t : Bracketing Register, s.operands.Perm t.operands → s.fold iadd = t.fold iadd := by
  have htree (t : IntegerTree) (signed : Bool) (l : Lane) :
      Word.IsResidueOf (t.exact signed l) (t.eval.get l) := by
    rw [t.get_eval signed l]
    exact Word.isResidueOf_ofInt _
  refine ⟨htree, ?_, fun s t => fold_iadd_of_perm⟩
  intro d x start coefficients signed l
  have hhorner := htree (.horner d x (.leaf start) coefficients) signed l
  rw [IntegerTree.exact_horner, IntegerTree.eval_horner] at hhorner
  exact hhorner

/-- Three registers whose sum leaves the range, turned around and bracketed the other way. -/
theorem integer_trees_hold_residues_turned :
    let a : Register := Quad.splat 0x7fffffff
    let b : Register := Quad.splat 0x00000001
    let c : Register := Quad.splat 0x80000000
    Bracketing.fold iadd (.join (.join (.single a) (.single b)) (.single c)) =
      Bracketing.fold iadd (.join (.single c) (.join (.single b) (.single a))) := by
  intro a b c
  obtain ⟨-, -, hsum⟩ := integer_trees_hold_residues
  exact hsum _ _ (List.reverse_perm [c, b, a])

end Register

end FourLane
