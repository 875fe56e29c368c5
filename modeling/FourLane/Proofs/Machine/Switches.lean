import FourLane.Proofs.Machine.Steps
import FourLane.Proofs.Register.Switches

/-!
# What a program can tell of a dialect

An instruction sees of the current dialect its two switches and nothing else (`result_congr`), and
one that follows no dialect sees nothing of it (`result_of_not_readsDialect`). Hence two programs
stay together, step by step, if they give their dialects different bits without a switch, and two
programs whose instructions follow no dialect end with the same registers if they differ in nothing
but the dialects they set.
-/

namespace FourLane

/-! ## Instructions -/

namespace Instruction

variable {ρ σ : Type} {d d' : Dialect}

theorem readsDialect_map (f : ρ → σ) (i : Instruction ρ) :
    (i.map f).readsDialect = i.readsDialect := by
  cases i with
  | mad choice | imad choice | xor choice => cases choice <;> rfl
  | _ => rfl

/-- A result depends on which switches are on. -/
theorem result_congr (h : ∀ s, d.has s = d'.has s) (i : Instruction Register) :
    i.result d = i.result d' := by
  have hchoice : ∀ choice s,
      (DialectChoice.dialect choice d).has s = (DialectChoice.dialect choice d').has s := by
    intro choice s
    cases choice with
    | standard => rfl
    | current => exact h s
  cases i with
  | mad choice => rw [result, result, Register.mad_congr (hchoice choice _)]
  | imad choice => rw [result, result, Register.imad_congr (hchoice choice _)]
  | xor choice => rw [result, result, Register.xor_congr (hchoice choice _)]
  | _ => rfl

/-- A result that follows no dialect depends on none. -/
theorem result_of_not_readsDialect {i : Instruction Register} (h : i.readsDialect = false) :
    i.result d = i.result d' := by
  cases i with
  | mad choice | imad choice | xor choice =>
    cases choice with
    | standard => rfl
    | current => cases h
  | _ => rfl

end Instruction

/-! ## Steps -/

variable {n : Nat}

/-- The source without the bits that belong to no switch; a text gives none. -/
def Dialect.Source.truncate : Dialect.Source → Dialect.Source
  | bits b => bits (b &&& known)
  | text t => text t

namespace Step

/-- The step with a dialect that has no bits but switches, if it sets one by its bits. -/
def truncate : Step n → Step n
  | setDialect source => setDialect source.truncate
  | s => s

/-- Whether a step sets a dialect, or tries to. -/
def isSetDialect : Step n → Bool
  | setDialect _ => true
  | _ => false

/-- Whether a step is an instruction that follows the current dialect. -/
def readsDialect : Step n → Bool
  | execute i _ => i.readsDialect
  | _ => false

variable {d d' : Dialect} (registers : Vector Register n)

theorem write?_truncate (s : Step n) (h : ∀ sw, d.has sw = d'.has sw) :
    s.truncate.write? d' registers = s.write? d registers := by
  cases s with
  | execute i dst =>
    simp only [truncate, write?]
    rw [Instruction.result_congr h]
  | _ => rfl

theorem events_truncate (s : Step n) : s.truncate.events registers = s.events registers := by
  cases s with
  | setDialect source => cases source <;> rfl
  | _ => rfl

/-- A truncated step leaves the same switches on. -/
theorem has_dialect?_truncate (s : Step n) (h : ∀ sw, d.has sw = d'.has sw) (sw : Switch) :
    (s.dialect?.getD d).has sw = (s.truncate.dialect?.getD d').has sw := by
  cases s with
  | setDialect source =>
    cases source with
    | bits b => exact (Dialect.has_truncate ⟨b⟩ sw).symm
    | text t =>
      simp only [truncate, Dialect.Source.truncate, dialect?]
      cases (Dialect.Source.text t).read with
      | ok e => rfl
      | error e => exact h sw
  | _ => exact h sw

theorem write?_of_not_readsDialect {s : Step n} (h : s.readsDialect = false) :
    s.write? d registers = s.write? d' registers := by
  cases s with
  | execute i dst =>
    simp only [write?]
    rw [Instruction.result_of_not_readsDialect ((i.readsDialect_map _).trans h)]
  | _ => rfl

theorem readsDialect_of_isSetDialect {s : Step n} (h : s.isSetDialect = true) :
    s.readsDialect = false := by
  cases s with
  | setDialect source => rfl
  | _ => cases h

end Step

/-! ## Programs -/

namespace Machine

/-- Machines that differ in nothing but bits of the dialect that belong to no switch. -/
structure Alike (m m' : Machine n) : Prop where
  registers : m.registers = m'.registers
  log : m.log = m'.log
  switches : ∀ s, m.dialect.has s = m'.dialect.has s

theorem Alike.refl (m : Machine n) : Alike m m := ⟨rfl, rfl, fun _ => rfl⟩

/-- A step and its truncated form keep machines alike. -/
theorem Alike.step {m m' : Machine n} (h : Alike m m') (s : Step n) :
    Alike (m.step s).2 (m'.step s.truncate).2 := by
  rw [step_eq, step_eq, ← h.registers, ← h.log, Step.write?_truncate _ s h.switches,
    Step.events_truncate]
  exact ⟨rfl, rfl, s.has_dialect?_truncate h.switches⟩

/-- A program and its truncated form keep machines alike. -/
theorem Alike.run {m m' : Machine n} (h : Alike m m') (steps : List (Step n)) :
    Alike (m.run steps).2 (m'.run (steps.map Step.truncate)).2 := by
  induction steps generalizing m m' with
  | nil => exact h
  | cons s rest ih => exact ih (h.step s)

theorem registers_step_congr {m m' : Machine n} (hregisters : m.registers = m'.registers)
    {s : Step n} (h : s.readsDialect = false) :
    (m.step s).2.registers = (m'.step s).2.registers := by
  rw [registers_step, registers_step, hregisters, Step.write?_of_not_readsDialect _ h]

theorem registers_step_of_isSetDialect (m : Machine n) {s : Step n} (h : s.isSetDialect = true) :
    (m.step s).2.registers = m.registers := by
  cases s with
  | setDialect source => exact m.registers_setDialect source
  | _ => cases h

/-- Steps that set a dialect can be left out where no instruction follows one. -/
theorem registers_run_filter {m m' : Machine n} (hregisters : m.registers = m'.registers)
    {steps : List (Step n)} (h : ∀ s ∈ steps, s.readsDialect = false) :
    (m.run steps).2.registers =
      (m'.run (steps.filter fun s => !s.isSetDialect)).2.registers := by
  induction steps generalizing m m' with
  | nil => exact hregisters
  | cons s rest ih =>
    have hrest : ∀ s ∈ rest, s.readsDialect = false := fun s hs => h s (List.mem_cons_of_mem _ hs)
    cases hs : s.isSetDialect with
    | true =>
      rw [List.filter_cons_of_neg (by simp [hs]), run_cons]
      exact ih ((m.registers_step_of_isSetDialect hs).trans hregisters) hrest
    | false =>
      rw [List.filter_cons_of_pos (by simp [hs]), run_cons, run_cons]
      exact ih (registers_step_congr hregisters (h s List.mem_cons_self)) hrest

/-- Programs that differ in nothing but the steps that set a dialect write the same registers, where
no instruction follows one. -/
theorem registers_run_congr {m m' : Machine n} (hregisters : m.registers = m'.registers)
    {steps steps' : List (Step n)} (h : ∀ s ∈ steps, s.readsDialect = false)
    (hsame : (steps.filter fun s => !s.isSetDialect) = steps'.filter fun s => !s.isSetDialect) :
    (m.run steps).2.registers = (m'.run steps').2.registers := by
  -- A step of the other program sets a dialect or is a step of this one.
  have h' : ∀ s ∈ steps', s.readsDialect = false := by
    intro s hs
    cases hset : s.isSetDialect with
    | true => exact Step.readsDialect_of_isSetDialect hset
    | false =>
      have hmem : s ∈ steps'.filter fun s => !s.isSetDialect :=
        List.mem_filter.2 ⟨hs, by simp [hset]⟩
      rw [← hsame] at hmem
      exact h s (List.mem_filter.1 hmem).1
  rw [registers_run_filter hregisters h, hsame, ← registers_run_filter rfl h']

/-- A dialect changes what its switches name and nothing else. Results depend on one bit each; the
two meanings of exclusive or differ where the operands share a bit, those of integer multiply-add
where the products differ modulo `2 ^ 32`, and no multiply-add differs in lane `x`. After any number
of steps a program has the same registers and the same log if the dialects it sets by their bits lose
those without a switch; and where no instruction follows a dialect, the registers do not depend on
the steps that set one. -/
theorem dialect_changes_what_it_names :
    (∀ d d' : Dialect, d.bits.getLsbD 0 = d'.bits.getLsbD 0 → ∀ sat a b c,
      Register.mad d sat a b c = Register.mad d' sat a b c ∧
      Register.imad d a b c = Register.imad d' a b c) ∧
    (∀ d d' : Dialect, d.bits.getLsbD 1 = d'.bits.getLsbD 1 → ∀ a b,
      Register.xor d a b = Register.xor d' a b) ∧
    (∀ on off : Dialect, on.bits.getLsbD 1 = true → off.bits.getLsbD 1 = false → ∀ a b l,
      (Register.xor on a b).get l ≠ (Register.xor off a b).get l ↔ a.get l &&& b.get l ≠ 0) ∧
    (∀ on off : Dialect, on.bits.getLsbD 0 = true → off.bits.getLsbD 0 = false → ∀ a b c l,
      ((Register.imad on a b c).get l ≠ (Register.imad off a b c).get l ↔
        ¬ (2 ^ 32 : Int) ∣ (a.get l).toInt * ((b.get .x).toInt - (b.get l).toInt)) ∧
      ((Register.imad on a b c).get l ≠ (Register.imad off a b c).get l ↔
        ¬ (2 ^ 32 : Int) ∣
          ((a.get l).toNat : Int) * (((b.get .x).toNat : Int) - ((b.get l).toNat : Int)))) ∧
    (∀ (d d' : Dialect) (sat : Bool) (a b c : Register),
      (Register.mad d sat a b c).get .x = (Register.mad d' sat a b c).get .x ∧
      (Register.imad d a b c).get .x = (Register.imad d' a b c).get .x) ∧
    (∀ (m : Machine n) (steps : List (Step n)) (k : Nat),
      let truncated := (m.run ((steps.map Step.truncate).take k)).2
      truncated.registers = (m.run (steps.take k)).2.registers ∧
      truncated.log = (m.run (steps.take k)).2.log) ∧
    ∀ (m m' : Machine n) (steps steps' : List (Step n)), m.registers = m'.registers →
      (∀ s ∈ steps, s.readsDialect = false) →
      (steps.filter fun s => !s.isSetDialect) = (steps'.filter fun s => !s.isSetDialect) →
      (m.run steps).2.registers = (m'.run steps').2.registers := by
  refine ⟨fun d d' h sat a b c => ?_, fun d d' h a b => ?_,
    fun on off hon hoff a b l => Register.get_xor_ne_iff hon hoff a b l,
    fun on off hon hoff a b c l => ⟨?_, ?_⟩, fun d d' sat a b c => ?_, fun m steps k => ?_,
    fun m m' steps steps' hregisters h hsame => registers_run_congr hregisters h hsame⟩
  · rw [← Dialect.has_factorFromLaneX, ← Dialect.has_factorFromLaneX] at h
    rw [Register.mad_congr h, Register.imad_congr h]
    exact ⟨rfl, rfl⟩
  · rw [← Dialect.has_xorIsOr, ← Dialect.has_xorIsOr] at h
    rw [Register.xor_congr h]
  · exact Register.get_imad_ne_iff hon hoff a b c l Word.ofInt_toInt
  · exact Register.get_imad_ne_iff hon hoff a b c l Word.ofInt_toNat
  · exact ⟨Register.get_mad_x d d' sat a b c, Register.get_imad_x d d' a b c⟩
  · have h := (Alike.refl m).run (steps.take k)
    rw [List.map_take] at h
    exact ⟨h.registers.symm, h.log.symm⟩

/-- Dialects with every bit, without bit 0 and without any: each pair that differs in a switch differs
in a lane, and agrees in the lanes with no common bit or with a product of `2 ^ 32`. A program that
names its dialects does not see which are set around it, readable or not. -/
theorem dialect_changes_what_it_names_in_lanes :
    let a : Register := ⟨3, 2, 2, 0⟩
    let b : Register := ⟨0x80000001, 1, 2, 5⟩
    let on : Dialect := ⟨0xffffffff⟩
    let off : Dialect := ⟨0xfffffffe⟩
    let m : Machine 2 := { registers := #v[a, b] }
    let add : Step 2 := .execute (.integerBinary .iadd 0 1) 1
    let xor : Step 2 := .execute (.xor .standard 0 1) 0
    Register.mad off true a b a = Register.mad .plain true a b a ∧
    Register.xor on a b = Register.xor off a b ∧
    (Register.xor on a b).get .z ≠ (Register.xor .plain a b).get .z ∧
    (Register.xor on a b).get .y = (Register.xor .plain a b).get .y ∧
    (Register.imad on a b a).get .z ≠ (Register.imad off a b a).get .z ∧
    (Register.imad on a b a).get .y = (Register.imad off a b a).get .y ∧
    (m.run [.setDialect (.bits 7), add, .setDialect (.text "none"), xor]).2.registers =
      (Machine.run { m with dialect := on } [add, .setDialect (.text "bogus"), xor]).2.registers := by
  intro a b on off m add xor
  obtain ⟨hmad, hxor, hcommon, hproduct, -, -, hset⟩ := dialect_changes_what_it_names (n := 2)
  have hwith : on.bits.getLsbD 0 = true ∧ on.bits.getLsbD 1 = true := by decide
  have hwithout : off.bits.getLsbD 0 = false ∧ Dialect.plain.bits.getLsbD 1 = false := by decide
  have hxor' := hcommon on .plain hwith.2 hwithout.2 a b
  have himad := fun l => (hproduct on off hwith.1 hwithout.1 a b a l).1
  refine ⟨(hmad off .plain (by decide) true a b a).1, hxor on off (by decide) a b,
    (hxor' .z).2 (by decide), not_not.1 (mt (hxor' .y).1 (by decide)), (himad .z).2 (by decide),
    not_not.1 (mt (himad .y).1 (by decide)), hset _ _ _ _ rfl (by decide) rfl⟩

end Machine

end FourLane
