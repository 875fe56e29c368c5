import FourLane.Instruction.Mnemonic

/-!
# Programs over a register file

A machine has `n` registers, a current dialect and a log. Each step of a program reads and writes by
index; a step that is refused answers its error and changes nothing.
-/

namespace FourLane

/-- The state between two steps of a program over `n` registers. -/
structure Machine (n : Nat) where
  registers : Vector Register n
  dialect : Dialect := .standard
  log : List Event := []

/-- One step of a program over `n` registers. -/
inductive Step (n : Nat) where
  | setDialect (source : Dialect.Source)
  | loadWords (words : List Word) (dst : Fin n)
  | loadBytes (bytes : List Byte) (dst : Fin n)
  | splat (src : Fin n) (lane : Nat) (dst : Fin n)
  | execute (instruction : Instruction (Fin n)) (dst : Fin n)
  deriving Repr

/-- The answer of a step: the dialect that is now current, or the register that was written. -/
inductive Answer where
  | dialect (d : Dialect)
  | register (r : Register)
  deriving DecidableEq, Repr

namespace Machine

variable {n : Nat}

/-- The machine with a register written and events added to its log. -/
def write (m : Machine n) (dst : Fin n) (r : Register) (events : List Event) : Machine n :=
  { m with registers := m.registers.set dst r, log := m.log ++ events }

end Machine

namespace Step

variable {n : Nat}

/-- The answer of a step and the machine after it, unless the step is refused. -/
def apply (m : Machine n) : Step n → Except Error (Answer × Machine n)
  | setDialect source => do
    let d ← source.read
    return (.dialect d, { m with dialect := d, log := m.log ++ source.events })
  | loadWords words dst => do
    let r ← Register.ofWords words
    return (.register r, m.write dst r [])
  | loadBytes bytes dst => do
    let r ← Register.ofBytes bytes
    return (.register r, m.write dst r [])
  | splat src lane dst => do
    let l ← Lane.ofIndex lane
    let r := Quad.splat (m.registers[src].get l)
    return (.register r, m.write dst r [])
  | execute instruction dst =>
    let operation := instruction.map fun i => m.registers[i]
    let r := (operation.result m.dialect).toRegister
    return (.register r, m.write dst r operation.events)

end Step

namespace Machine

variable {n : Nat}

/-- Runs one step: a refused one leaves the machine as it is. -/
def step (m : Machine n) (s : Step n) : Except Error Answer × Machine n :=
  match s.apply m with
  | .ok (answer, next) => (.ok answer, next)
  | .error e => (.error e, m)

/-- Runs a program: the answers of its steps, and the machine after it. -/
def run (m : Machine n) : List (Step n) → List (Except Error Answer) × Machine n
  | [] => ([], m)
  | s :: rest =>
    let (answer, next) := m.step s
    let (answers, last) := next.run rest
    (answer :: answers, last)

end Machine

end FourLane
