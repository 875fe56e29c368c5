import FourLane.Dialect.Names
import FourLane.Instruction.Basic

/-!
# Instructions by name and on their own

A mnemonic takes its operands from the front of a list and leaves the rest; one that has no clamp
modifier ignores it.

An instruction on its own is given with lists of words for operands, and with a source for the
dialect if it follows one. The source is read first, then the operands in order.
-/

namespace FourLane

/-- An answer or an error, with the events on the way to it. -/
structure Outcome (α : Type) where
  answer : Except Error α
  log : List Event

namespace Instruction

/-! ## Mnemonics -/

variable {ρ : Type}

/-- Instructions of one operand. -/
def unary? (sat : Bool) (a : ρ) : String → Option (Instruction ρ)
  | "mov" => some (mov sat a)
  | "sqrt" => some (floatUnary .sqrt sat a)
  | "rsq" => some (floatUnary .rsq sat a)
  | "ftoi" => some (convert .ftoi a)
  | "ftou" => some (convert .ftou a)
  | "itof" => some (convert .itof a)
  | "utof" => some (convert .utof a)
  | _ => none

/-- Instructions of two operands. -/
def binary? (sat : Bool) (a b : ρ) : String → Option (Instruction ρ)
  | "add" => some (floatBinary .add sat a b)
  | "mul" => some (floatBinary .mul sat a b)
  | "div" => some (floatBinary .div sat a b)
  | "max" => some (floatBinary .max sat a b)
  | "min" => some (floatBinary .min sat a b)
  | "dp2" => some (dot 2 sat a b)
  | "dp3" => some (dot 3 sat a b)
  | "dp4" => some (dot 4 sat a b)
  | "iadd" => some (integerBinary .iadd a b)
  | "imin" => some (integerBinary .imin a b)
  | "ge" => some (compare .ge a b)
  | "lt" => some (compare .lt a b)
  | "ne" => some (compare .ne a b)
  | "ige" => some (compare .ige a b)
  | "ilt" => some (compare .ilt a b)
  | "ine" => some (compare .ine a b)
  | "and" => some (and a b)
  | "xor" => some (xor .standard a b)
  | "xor_with" => some (xor .current a b)
  | _ => none

/-- Instructions of three operands. -/
def ternary? (sat : Bool) (a b c : ρ) : String → Option (Instruction ρ)
  | "mad" => some (mad .standard sat a b c)
  | "mad_with" => some (mad .current sat a b c)
  | "imad" => some (imad .standard a b c)
  | "imad_with" => some (imad .current a b c)
  | _ => none

/-- The instruction with this mnemonic on the first operands of a list. -/
def ofMnemonic? (mnemonic : String) (sat : Bool) : List ρ → Option (Instruction ρ)
  | [] => none
  | [a] => unary? sat a mnemonic
  | [a, b] => (unary? sat a mnemonic).or (binary? sat a b mnemonic)
  | a :: b :: c :: _ =>
    ((unary? sat a mnemonic).or (binary? sat a b mnemonic)).or (ternary? sat a b c mnemonic)

/-! ## Executing one instruction -/

/-- The dialect of a source, as far as the instruction follows one. -/
def dialectOf (source : Dialect.Source) (i : Instruction (List Word)) : Except Error Dialect :=
  if i.readsDialect then source.read else .ok .standard

/-- What reading the source reports, as far as the instruction follows it. -/
def dialectEvents (source : Dialect.Source) (i : Instruction (List Word)) : List Event :=
  if i.readsDialect then source.events else []

/-- Reads the source and the operands and executes the instruction. -/
def execute (source : Dialect.Source) (i : Instruction (List Word)) : Outcome Result :=
  let answer := do
    let dialect ← i.dialectOf source
    let operation ← i.mapM Register.ofWords
    return (operation.result dialect, operation.events)
  match answer with
  | .ok (result, events) => ⟨.ok result, i.dialectEvents source ++ events⟩
  | .error e => ⟨.error e, i.dialectEvents source⟩

end Instruction

end FourLane
