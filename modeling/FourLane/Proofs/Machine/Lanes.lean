import FourLane.Proofs.Machine.Steps
import FourLane.Proofs.Register.Lanes

/-!
# Four machines side by side

A `LaneMachine` has one word where a machine has a register. As long as a program is `Lanewise` it
runs on four of them that know nothing of each other: `lane_execute` shows it of one step, and `lane_run`
of a run by induction. Rearranging the lanes of all registers before a run or after it is therefore
the same.
-/

namespace FourLane

open Word (store)

/-! ## An instruction on one lane -/

namespace Instruction

variable {ρ σ τ : Type}

/-- Whether lane `l` of what an instruction yields depends on lane `l` of its operands alone. A copy
with the modifier and a multiply-add that takes lane `x` do not, and a dot product yields no lanes. -/
def isLanewise (d : Dialect) : Instruction ρ → Bool
  | mov sat _ => !sat
  | dot .. => false
  | mad choice .. | imad choice .. => !(choice.dialect d).has .factorFromLaneX
  | _ => true

/-- What an instruction does to one word of each operand, if it goes lane by lane. -/
def onLane? (d : Dialect) : Instruction Word → Option Word
  | mov sat x => if sat then none else some x
  | floatUnary op sat x => some (store sat (op.onWord x))
  | floatBinary op sat x y => some (store sat (op.onWords x y))
  | dot .. => none
  | integerBinary op x y => some (op.onWords x y)
  | compare op x y => some (Word.ofMask (op.holds x y))
  | and x y => some (x &&& y)
  | convert op x => some (op.onWord x)
  | mad choice sat x y z =>
    if (choice.dialect d).has .factorFromLaneX then none else some (store sat (Word.fmulAdd x y z))
  | imad choice x y z =>
    if (choice.dialect d).has .factorFromLaneX then none else some (x * y + z)
  | xor choice x y => some ((choice.dialect d).xorWords x y)

theorem map_map (f : ρ → σ) (g : σ → τ) (i : Instruction ρ) :
    (i.map f).map g = i.map fun a => g (f a) := by
  cases i <;> rfl

theorem isLanewise_map (d : Dialect) (f : ρ → σ) (i : Instruction ρ) :
    (i.map f).isLanewise d = i.isLanewise d := by
  cases i <;> rfl

/-- On one lane, the lanewise form of an instruction yields the lane of its result. -/
theorem onLane?_get {d : Dialect} {i : Instruction Register} (h : i.isLanewise d = true) (l : Lane) :
    (i.map (·.get l)).onLane? d = some ((i.result d).toRegister.get l) := by
  cases i with
  | mov sat a =>
    cases sat with
    | false => rfl
    | true => cases h
  | floatUnary op sat a => exact congrArg some (op.get_apply a l sat).symm
  | floatBinary op sat a b => exact congrArg some (op.get_apply a b l sat).symm
  | dot width sat a b => cases h
  | integerBinary op a b => exact congrArg some (op.get_apply a b l).symm
  | compare op a b => exact congrArg some (Register.get_compare a b l op).symm
  | and a b => exact congrArg some (Register.get_and a b l).symm
  | convert op a => exact congrArg some (op.get_apply a l).symm
  | mad choice sat a b c =>
    -- The lane of a multiply-add is its own only where the factor is not spread.
    have hfactor : (choice.dialect d).has .factorFromLaneX = false := by
      simpa [isLanewise] using h
    simp only [map, onLane?, result, Result.toRegister, hfactor, Bool.false_eq_true, if_false]
    rw [Register.get_mad, Register.factor_of_not_has b hfactor]
  | imad choice a b c =>
    have hfactor : (choice.dialect d).has .factorFromLaneX = false := by
      simpa [isLanewise] using h
    simp only [map, onLane?, result, Result.toRegister, hfactor, Bool.false_eq_true, if_false]
    rw [Register.get_imad, Register.factor_of_not_has b hfactor]
  | xor choice a b => exact congrArg some (Register.get_xor a b l _).symm

end Instruction

/-! ## A program on one lane -/

/-- A machine of words: one lane of every register, with the dialect that is current. -/
structure LaneMachine (n : Nat) where
  words : Vector Word n
  dialect : Dialect
  deriving DecidableEq, Repr

variable {n : Nat}

namespace LaneMachine

/-- One step on one lane, if it goes lane by lane. -/
def step? (m : LaneMachine n) : Step n → Option (LaneMachine n)
  | .setDialect source => some { m with dialect := (source.read.toOption).getD m.dialect }
  | .execute i dst =>
    ((i.map m.words.get).onLane? m.dialect).map fun w =>
      { m with words := m.words.set dst w dst.isLt }
  | .loadWords .. | .loadBytes .. | .splat .. => none

/-- A program on one lane. -/
def run? (m : LaneMachine n) : List (Step n) → Option (LaneMachine n)
  | [] => some m
  | s :: rest => do (← m.step? s).run? rest

end LaneMachine

/-- A program of instructions, each of which goes lane by lane under the dialect that is current
when its turn comes. -/
inductive Lanewise : Dialect → List (Step n) → Prop
  | nil {d} : Lanewise d []
  | setDialect {d source rest} : Lanewise ((source.read.toOption).getD d) rest →
      Lanewise d (.setDialect source :: rest)
  | execute {d i dst rest} : i.isLanewise d = true → Lanewise d rest →
      Lanewise d (.execute i dst :: rest)

namespace Machine

/-- Lane `l` of a machine. -/
def lane (m : Machine n) (l : Lane) : LaneMachine n :=
  ⟨m.registers.map (·.get l), m.dialect⟩

/-- The machine whose registers have in lane `l` what they had in lane `σ l`. -/
def rearrange (σ : Lane → Lane) (m : Machine n) : Machine n :=
  { m with registers := m.registers.map fun r => Quad.ofFn fun l => r.get (σ l) }

theorem lane_rearrange (σ : Lane → Lane) (m : Machine n) (l : Lane) :
    (m.rearrange σ).lane l = m.lane (σ l) := by
  simp only [lane, rearrange, Vector.map_map, Function.comp_def, Quad.get_ofFn]

theorem registers_ext {m m' : Machine n} (h : ∀ l, m.lane l = m'.lane l) :
    m.registers = m'.registers := by
  apply Vector.ext
  intro i hi
  apply Quad.ext_get
  intro l
  have hwords := congrArg (fun m => m.words[i]) (h l)
  simpa only [lane, Vector.getElem_map] using hwords

/-! ## One step, and a run -/

theorem lane_setDialect (m : Machine n) (source : Dialect.Source) (l : Lane) :
    (m.lane l).step? (.setDialect source) = some ((m.step (.setDialect source)).2.lane l) := by
  simp only [step, Step.apply, LaneMachine.step?]
  cases source.read <;> rfl

theorem lane_write (m : Machine n) (dst : Fin n) (r : Register) (events : List Event) (l : Lane) :
    (m.write dst r events).lane l = ⟨(m.lane l).words.set dst (r.get l) dst.isLt, m.dialect⟩ := by
  simp only [lane, write, Vector.map_set]

/-- A lanewise instruction does to a lane on its own what it does to it in a machine. -/
theorem lane_execute (m : Machine n) {i : Instruction (Fin n)} (dst : Fin n)
    (h : i.isLanewise m.dialect = true) (l : Lane) :
    (m.lane l).step? (.execute i dst) = some ((m.step (.execute i dst)).2.lane l) := by
  let operation : Instruction Register := i.map fun r => m.registers[r]
  have hoperands : i.map (m.lane l).words.get = operation.map (·.get l) := by
    have hget : (m.lane l).words.get = fun r => m.registers[r].get l :=
      funext fun r => Vector.getElem_map _ r.isLt
    rw [Instruction.map_map, hget]
  have hresult : (operation.map (·.get l)).onLane? m.dialect =
      some ((operation.result m.dialect).toRegister.get l) :=
    Instruction.onLane?_get ((Instruction.isLanewise_map m.dialect _ i).trans h) l
  have hstep : (m.step (.execute i dst)).2 =
      m.write dst (operation.result m.dialect).toRegister operation.events := rfl
  have hdialect : (m.lane l).dialect = m.dialect := rfl
  rw [hstep, lane_write, LaneMachine.step?, hoperands, hdialect, hresult]
  rfl

/-- A lanewise program on one lane does what it does on the whole machine. -/
theorem lane_run {m : Machine n} {steps : List (Step n)} (h : Lanewise m.dialect steps) (l : Lane) :
    (m.lane l).run? steps = some ((m.run steps).2.lane l) := by
  induction steps generalizing m with
  | nil => rfl
  | cons s rest ih =>
    -- What is left goes lane by lane under the dialect that this step leaves.
    have hdialect := m.step_dialect s
    rw [run_cons, LaneMachine.run?]
    cases h with
    | @setDialect _ source _ hrest =>
      rw [lane_setDialect]
      exact ih (hdialect ▸ hrest)
    | execute hi hrest =>
      rw [lane_execute m _ hi]
      exact ih (hdialect ▸ hrest)

/-- A program that goes lane by lane takes each lane of the registers through a run of its own; so
it does not matter to it in which order the lanes stand. -/
theorem lanes_run_apart {m : Machine n} {steps : List (Step n)} (h : Lanewise m.dialect steps) :
    (∀ l, (m.lane l).run? steps = some ((m.run steps).2.lane l)) ∧
    ∀ σ : Lane → Lane,
      ((m.rearrange σ).run steps).2.registers = ((m.run steps).2.rearrange σ).registers := by
  refine ⟨lane_run h, fun σ => ?_⟩
  apply registers_ext
  intro l
  -- Both sides are the run of lane `σ l` on its own, which does not know where it stands.
  have hrearranged : ((m.rearrange σ).lane l).run? steps =
      some (((m.rearrange σ).run steps).2.lane l) := lane_run (m := m.rearrange σ) h l
  rw [lane_rearrange, lane_run h (σ l)] at hrearranged
  rw [lane_rearrange]
  exact (Option.some.inj hrearranged).symm

/-- The second factor and what an instruction writes are read again by later ones. -/
theorem lanes_run_apart_chain :
    let m : Machine 2 := { registers := #v[⟨1, 2, 3, 4⟩, ⟨5, 6, 7, 0x7fc00000⟩] }
    let steps : List (Step 2) :=
      [.execute (.imad .current 0 1 0) 1, .setDialect (.bits 0), .execute (.xor .current 1 0) 0,
        .execute (.floatBinary .max true 0 1) 1]
    Lanewise m.dialect steps ∧
    (∀ l, (m.lane l).run? steps = some ((m.run steps).2.lane l)) ∧
    (∀ σ : Lane → Lane,
      ((m.rearrange σ).run steps).2.registers = ((m.run steps).2.rearrange σ).registers) ∧
    (m.run steps).2.lane .y = ⟨#v[12, 14], ⟨0⟩⟩ := by
  intro m steps
  have himad : (Instruction.imad .current 0 1 0 : Instruction (Fin 2)).isLanewise .standard := by
    decide
  have h : Lanewise m.dialect steps :=
    .execute himad (.setDialect (.execute rfl (.execute rfl .nil)))
  obtain ⟨hlanes, horder⟩ := lanes_run_apart h
  exact ⟨h, hlanes, horder, by decide +kernel⟩

end Machine

end FourLane
