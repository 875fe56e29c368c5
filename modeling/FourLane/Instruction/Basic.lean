import FourLane.Register.Instructions

/-!
# Instructions

An instruction is an operation with its operands. What an operand is depends on the use: a register,
the index of one, or the words that are to make one. Its meaning on registers is `result`; its
reports are `events`.
-/

namespace FourLane

/-- Float operations of one operand, lane by lane. -/
inductive FloatUnary where
  | sqrt | rsq
  deriving DecidableEq, Repr

/-- Float operations of two operands, lane by lane. -/
inductive FloatBinary where
  | add | mul | div | max | min
  deriving DecidableEq, Repr

/-- Integer operations of two operands, lane by lane. -/
inductive IntegerBinary where
  | iadd | imin
  deriving DecidableEq, Repr

/-- Conversions between the readings, lane by lane. -/
inductive Conversion where
  | ftoi | ftou | itof | utof
  deriving DecidableEq, Repr

/-- Which dialect an instruction follows. -/
inductive DialectChoice where
  /-- The standard dialect, whatever is current. -/
  | standard
  /-- The dialect that is current. -/
  | current
  deriving DecidableEq, Repr

/-- An operation with operands of type `ρ`. -/
inductive Instruction (ρ : Type) where
  | mov (sat : Bool) (a : ρ)
  | floatUnary (op : FloatUnary) (sat : Bool) (a : ρ)
  | floatBinary (op : FloatBinary) (sat : Bool) (a b : ρ)
  | dot (width : Nat) (sat : Bool) (a b : ρ)
  | integerBinary (op : IntegerBinary) (a b : ρ)
  | compare (op : Comparison) (a b : ρ)
  | and (a b : ρ)
  | convert (op : Conversion) (a : ρ)
  | mad (choice : DialectChoice) (sat : Bool) (a b c : ρ)
  | imad (choice : DialectChoice) (a b c : ρ)
  | xor (choice : DialectChoice) (a b : ρ)
  deriving DecidableEq, Repr

/-- What an instruction yields: a register, or one word. -/
inductive Result where
  | register (r : Register)
  | word (w : Word)
  deriving DecidableEq, Repr

/-- The register that a result writes; a single word goes to every lane. -/
def Result.toRegister : Result → Register
  | register r => r
  | word w => Quad.splat w

/-! ## Meaning of the operations -/

/-- What a float operation of one operand does to a register. -/
def FloatUnary.apply : FloatUnary → Bool → Register → Register
  | sqrt => Register.sqrt
  | rsq => Register.rsq

/-- What a float operation of two operands does to registers. -/
def FloatBinary.apply : FloatBinary → Bool → Register → Register → Register
  | add => Register.add
  | mul => Register.mul
  | div => Register.div
  | max => Register.max
  | min => Register.min

/-- What an integer operation does to registers. -/
def IntegerBinary.apply : IntegerBinary → Register → Register → Register
  | iadd => Register.iadd
  | imin => Register.imin

/-- What a conversion does to a register. -/
def Conversion.apply : Conversion → Register → Register
  | ftoi => Register.ftoi
  | ftou => Register.ftou
  | itof => Register.itof
  | utof => Register.utof

/-- What a conversion reports; conversions from integers report nothing. -/
def Conversion.events : Conversion → Register → List Event
  | ftoi, a | ftou, a => a.conversionEvents
  | itof, _ | utof, _ => []

/-- The dialect that an instruction follows while `d` is current. -/
def DialectChoice.dialect : DialectChoice → Dialect → Dialect
  | standard, _ => .standard
  | current, d => d

namespace Instruction

variable {ρ σ : Type}

/-- The same operation on other operands. -/
def map (f : ρ → σ) : Instruction ρ → Instruction σ
  | mov sat a => mov sat (f a)
  | floatUnary op sat a => floatUnary op sat (f a)
  | floatBinary op sat a b => floatBinary op sat (f a) (f b)
  | dot width sat a b => dot width sat (f a) (f b)
  | integerBinary op a b => integerBinary op (f a) (f b)
  | compare op a b => compare op (f a) (f b)
  | and a b => and (f a) (f b)
  | convert op a => convert op (f a)
  | mad choice sat a b c => mad choice sat (f a) (f b) (f c)
  | imad choice a b c => imad choice (f a) (f b) (f c)
  | xor choice a b => xor choice (f a) (f b)

/-- The same operation on operands that are made in order; the first that fails decides. -/
def mapM {m : Type → Type} [Monad m] (f : ρ → m σ) : Instruction ρ → m (Instruction σ)
  | mov sat a => return mov sat (← f a)
  | floatUnary op sat a => return floatUnary op sat (← f a)
  | floatBinary op sat a b => return floatBinary op sat (← f a) (← f b)
  | dot width sat a b => return dot width sat (← f a) (← f b)
  | integerBinary op a b => return integerBinary op (← f a) (← f b)
  | compare op a b => return compare op (← f a) (← f b)
  | and a b => return and (← f a) (← f b)
  | convert op a => return convert op (← f a)
  | mad choice sat a b c => return mad choice sat (← f a) (← f b) (← f c)
  | imad choice a b c => return imad choice (← f a) (← f b) (← f c)
  | xor choice a b => return xor choice (← f a) (← f b)

/-- Whether an instruction follows the dialect that is current. -/
def readsDialect : Instruction ρ → Bool
  | mad .current .. | imad .current .. | xor .current .. => true
  | _ => false

/-- What an instruction yields while `d` is the current dialect. -/
def result (d : Dialect) : Instruction Register → Result
  | mov sat a => .register (Register.mov sat a)
  | floatUnary op sat a => .register (op.apply sat a)
  | floatBinary op sat a b => .register (op.apply sat a b)
  | dot width sat a b => .word (Register.dot width sat a b)
  | integerBinary op a b => .register (op.apply a b)
  | compare op a b => .register (Register.compare op a b)
  | and a b => .register (Register.and a b)
  | convert op a => .register (op.apply a)
  | mad choice sat a b c => .register (Register.mad (choice.dialect d) sat a b c)
  | imad choice a b c => .register (Register.imad (choice.dialect d) a b c)
  | xor choice a b => .register (Register.xor (choice.dialect d) a b)

/-- What an instruction reports: only conversions do, whatever the dialect. -/
def events : Instruction Register → List Event
  | convert op a => op.events a
  | _ => []

end Instruction

end FourLane
