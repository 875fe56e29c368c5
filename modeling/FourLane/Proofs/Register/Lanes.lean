import FourLane.Instruction.Basic

/-!
# Results, lane by lane

Most instructions do to every lane what one function does to words. `onWord` and `onWords` name the
function, and one lemma for each family of instructions says that lane `l` of the result comes from
lane `l` of the operands. `get_add` and its like are for proofs about one instruction.
-/

namespace FourLane

open Word (store)

/-! ## The functions on words -/

/-- The operation on one word. -/
def FloatUnary.onWord : FloatUnary → Word → Word
  | sqrt => Word.fsqrt
  | rsq => Word.frsqrt

/-- The operation on two words. -/
def FloatBinary.onWords : FloatBinary → Word → Word → Word
  | add => Word.fadd
  | mul => Word.fmul
  | div => Word.fdiv
  | max => Word.fmax
  | min => Word.fmin

/-- The operation on two words. -/
def IntegerBinary.onWords : IntegerBinary → Word → Word → Word
  | iadd => fun x y => x + y
  | imin => fun x y => if x.toInt < y.toInt then x else y

/-- The conversion of one word. -/
def Conversion.onWord : Conversion → Word → Word
  | ftoi | ftou => Word.ftoi
  | itof => Word.itof
  | utof => Word.utof

/-- Exclusive or, or what the dialect puts in its place. -/
def Dialect.xorWords (d : Dialect) (x y : Word) : Word :=
  if d.has .xorIsOr then x ||| y else x ^^^ y

/-- The lane that gives lane `l` of a multiply-add its second factor. -/
def Dialect.factorLane (d : Dialect) (l : Lane) : Lane := if d.has .factorFromLaneX then .x else l

/-! ## The lanes of a result -/

variable (a b c : Register) (l : Lane)

theorem FloatUnary.get_apply (op : FloatUnary) (sat : Bool) :
    (op.apply sat a).get l = store sat (op.onWord (a.get l)) := by
  cases op <;> exact Quad.get_map ..

theorem FloatBinary.get_apply (op : FloatBinary) (sat : Bool) :
    (op.apply sat a b).get l = store sat (op.onWords (a.get l) (b.get l)) := by
  cases op <;> exact Quad.get_map₂ ..

theorem IntegerBinary.get_apply (op : IntegerBinary) :
    (op.apply a b).get l = op.onWords (a.get l) (b.get l) := by
  cases op <;> exact Quad.get_map₂ ..

theorem Conversion.get_apply (op : Conversion) : (op.apply a).get l = op.onWord (a.get l) := by
  cases op <;> exact Quad.get_map ..

namespace Register

section

variable (sat : Bool)

theorem get_add : (add sat a b).get l = store sat (Word.fadd (a.get l) (b.get l)) := Quad.get_map₂ ..

theorem get_mul : (mul sat a b).get l = store sat (Word.fmul (a.get l) (b.get l)) := Quad.get_map₂ ..

theorem get_div : (div sat a b).get l = store sat (Word.fdiv (a.get l) (b.get l)) := Quad.get_map₂ ..

theorem get_max : (max sat a b).get l = store sat (Word.fmax (a.get l) (b.get l)) := Quad.get_map₂ ..

theorem get_min : (min sat a b).get l = store sat (Word.fmin (a.get l) (b.get l)) := Quad.get_map₂ ..

theorem get_sqrt : (sqrt sat a).get l = store sat (Word.fsqrt (a.get l)) := Quad.get_map ..

theorem get_rsq : (rsq sat a).get l = store sat (Word.frsqrt (a.get l)) := Quad.get_map ..

end

theorem get_iadd : (iadd a b).get l = a.get l + b.get l := Quad.get_map₂ ..

theorem get_imin :
    (imin a b).get l = if (a.get l).toInt < (b.get l).toInt then a.get l else b.get l :=
  Quad.get_map₂ ..

theorem get_ftoi : (ftoi a).get l = Word.ftoi (a.get l) := Quad.get_map ..

theorem get_itof : (itof a).get l = Word.itof (a.get l) := Quad.get_map ..

theorem get_utof : (utof a).get l = Word.utof (a.get l) := Quad.get_map ..

theorem get_compare (op : Comparison) :
    (compare op a b).get l = Word.ofMask (op.holds (a.get l) (b.get l)) :=
  Quad.get_map₂ ..

theorem compare_eq_allOnes_iff (op : Comparison) :
    (compare op a b).get l = Word.allOnes ↔ op.holds (a.get l) (b.get l) = true := by
  rw [get_compare]
  cases op.holds (a.get l) (b.get l) <;> decide

theorem get_and : (and a b).get l = a.get l &&& b.get l := Quad.get_map₂ ..

theorem get_xor (d : Dialect) : (xor d a b).get l = d.xorWords (a.get l) (b.get l) := by
  unfold xor Dialect.xorWords
  split <;> exact Quad.get_map₂ ..

theorem get_mad (d : Dialect) (sat : Bool) :
    (mad d sat a b c).get l =
      store sat (Word.fmulAdd (a.get l) ((factor d b).get l) (c.get l)) :=
  Quad.get_map₃ ..

theorem get_imad (d : Dialect) :
    (imad d a b c).get l = a.get l * (factor d b).get l + c.get l :=
  Quad.get_map₃ ..

theorem get_factor (d : Dialect) : (factor d b).get l = b.get (d.factorLane l) := by
  unfold factor Dialect.factorLane
  split
  · exact Quad.get_splat ..
  · rfl

/-- The second factor is the register itself unless the dialect spreads lane `x`. -/
theorem factor_of_not_has {d : Dialect} (h : d.has .factorFromLaneX = false) : factor d b = b := by
  simp [factor, h]

/-- The modifier acts on a dot product after its last sum. -/
theorem dot_eq_store (width : Nat) (sat : Bool) : dot width sat a b = store sat (dot width false a b) :=
  rfl

end Register

end FourLane
