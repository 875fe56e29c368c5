import FourLane.Machine
import FourLane.Proofs.Register.Encodings

/-!
# What steps do, and that refused ones do nothing

Whether a step is refused, and with which error, is a matter of the step alone (`refusal?`). Since a
refused step leaves the machine as it is, a program and the same program without its refused steps
go through the same machines; only the answers of the refused steps are missing.

A step that is not refused does up to three things: it writes a register, it makes a dialect the current
one, and it adds events to the log. `Step.write?`, `Step.dialect?` and `Step.events` say what, from the
step, the registers and the dialect before it, and `step_eq` that this is all.
-/

namespace FourLane

theorem Lane.ofIndex_cases (index : Nat) :
    (index ≤ 3 ∧ ∃ l, Lane.ofIndex index = .ok l) ∨
      (¬ index ≤ 3 ∧ Lane.ofIndex index = .error (.laneOutOfRange index)) := by
  match index with
  | 0 => exact .inl ⟨by decide, .x, rfl⟩
  | 1 => exact .inl ⟨by decide, .y, rfl⟩
  | 2 => exact .inl ⟨by decide, .z, rfl⟩
  | 3 => exact .inl ⟨by decide, .w, rfl⟩
  | index + 4 => exact .inr ⟨by omega, rfl⟩

/-! ## Refusals -/

namespace Step

variable {n : Nat}

/-- The error of a step that is refused: a load of the wrong length, a lane that is none, or a text
that names no dialect. Instructions are never refused. -/
def refusal? : Step n → Option Error
  | loadWords words _ => if words.length = 4 then none else some (.laneCount words.length)
  | loadBytes bytes _ => if bytes.length = 16 then none else some (.byteCount bytes.length)
  | splat _ lane _ => if lane ≤ 3 then none else some (.laneOutOfRange lane)
  | setDialect (.text text) =>
    match Dialect.parse text with
    | .ok _ => none
    | .error e => some e
  | setDialect (.bits _) => none
  | execute .. => none

/-- Whether a step is not refused. -/
def accepted (s : Step n) : Bool := s.refusal?.isNone

theorem accepted_of_none {s : Step n} (h : s.refusal? = none) : s.accepted = true := by
  rw [accepted, h]
  rfl

theorem accepted_of_some {s : Step n} {e : Error} (h : s.refusal? = some e) :
    s.accepted = false := by
  rw [accepted, h]
  rfl

/-- The dialect that a step makes the current one. -/
def dialect? : Step n → Option Dialect
  | setDialect source => source.read.toOption
  | _ => none

/-- A step fails with its refusal, or it has none and yields an answer; only the step itself tells
which dialect is current after it. -/
theorem apply_cases (m : Machine n) (s : Step n) :
    (∃ e, s.refusal? = some e ∧ s.dialect? = none ∧ s.apply m = .error e) ∨
      (s.refusal? = none ∧ ∃ answer next, s.apply m = .ok (answer, next) ∧
        next.dialect = s.dialect?.getD m.dialect) := by
  cases s with
  | setDialect source =>
    cases source with
    | bits b => exact .inr ⟨rfl, _, _, rfl, rfl⟩
    | text t =>
      simp only [refusal?, dialect?, apply, Dialect.Source.read]
      cases Dialect.parse t with
      | ok d => exact .inr ⟨rfl, _, _, rfl, rfl⟩
      | error e => exact .inl ⟨e, rfl, rfl, rfl⟩
  | loadWords words dst =>
    simp only [refusal?, apply]
    rcases Register.ofWords_cases words with ⟨hlen, r, hr⟩ | ⟨hlen, hr⟩ <;> rw [hr]
    · exact .inr ⟨if_pos hlen, _, _, rfl, rfl⟩
    · exact .inl ⟨_, if_neg hlen, rfl, rfl⟩
  | loadBytes bytes dst =>
    simp only [refusal?, apply]
    rcases Register.ofBytes_cases bytes with ⟨hlen, r, hr⟩ | ⟨hlen, hr⟩ <;> rw [hr]
    · exact .inr ⟨if_pos hlen, _, _, rfl, rfl⟩
    · exact .inl ⟨_, if_neg hlen, rfl, rfl⟩
  | splat src lane dst =>
    simp only [refusal?, apply]
    rcases Lane.ofIndex_cases lane with ⟨hle, l, hl⟩ | ⟨hle, hl⟩ <;> rw [hl]
    · exact .inr ⟨if_pos hle, _, _, rfl, rfl⟩
    · exact .inl ⟨_, if_neg hle, rfl, rfl⟩
  | execute i dst => exact .inr ⟨rfl, _, _, rfl, rfl⟩

end Step

namespace Machine

variable {n : Nat}

/-- All that a step can do to a machine. -/
theorem step_cases (m : Machine n) (s : Step n) :
    (∃ e, s.refusal? = some e ∧ s.dialect? = none ∧ m.step s = (.error e, m)) ∨
      (s.refusal? = none ∧ ∃ answer next, m.step s = (.ok answer, next) ∧
        next.dialect = s.dialect?.getD m.dialect) := by
  unfold step
  rcases s.apply_cases m with ⟨e, he, hnone, happly⟩ | ⟨hnone, answer, next, happly, hdialect⟩
  · exact .inl ⟨e, he, hnone, by rw [happly]⟩
  · exact .inr ⟨hnone, answer, next, by rw [happly], hdialect⟩

/-- A refused step answers its refusal and changes nothing. -/
theorem step_of_refusal (m : Machine n) {s : Step n} {e : Error} (h : s.refusal? = some e) :
    m.step s = (.error e, m) := by
  rcases m.step_cases s with ⟨e', he', -, hstep⟩ | ⟨hnone, -⟩
  · rw [he'] at h
    cases h
    exact hstep
  · rw [hnone] at h
    cases h

theorem step_error_iff (m : Machine n) (s : Step n) (e : Error) :
    (m.step s).1 = .error e ↔ s.refusal? = some e := by
  constructor
  · intro h
    rcases m.step_cases s with ⟨e', he', -, hstep⟩ | ⟨-, answer, next, hstep, -⟩
    · rw [hstep] at h
      cases h
      exact he'
    · rw [hstep] at h
      cases h
  · intro h
    rw [m.step_of_refusal h]

theorem step_dialect (m : Machine n) (s : Step n) :
    (m.step s).2.dialect = s.dialect?.getD m.dialect := by
  rcases m.step_cases s with ⟨e, -, hnone, hstep⟩ | ⟨-, answer, next, hstep, hdialect⟩
  · rw [hstep, hnone]
    rfl
  · rw [hstep]
    exact hdialect

/-! ## What a program does -/

theorem run_cons (m : Machine n) (s : Step n) (rest : List (Step n)) :
    m.run (s :: rest) =
      ((m.step s).1 :: ((m.step s).2.run rest).1, ((m.step s).2.run rest).2) :=
  rfl

theorem length_run (m : Machine n) (steps : List (Step n)) :
    (m.run steps).1.length = steps.length := by
  induction steps generalizing m with
  | nil => rfl
  | cons s rest ih =>
    rw [run_cons, List.length_cons, List.length_cons, ih]

/-- The steps of a program, each with its answer. -/
def transcript (m : Machine n) (steps : List (Step n)) : List (Step n × Except Error Answer) :=
  steps.zip (m.run steps).1

theorem transcript_cons (m : Machine n) (s : Step n) (rest : List (Step n)) :
    m.transcript (s :: rest) = (s, (m.step s).1) :: (m.step s).2.transcript rest :=
  rfl

/-- Without its refused steps a program ends in the same machine. -/
theorem run_filter_accepted (m : Machine n) (steps : List (Step n)) :
    (m.run (steps.filter Step.accepted)).2 = (m.run steps).2 := by
  induction steps generalizing m with
  | nil => rfl
  | cons s rest ih =>
    cases hs : s.refusal? with
    | none =>
      rw [List.filter_cons_of_pos (Step.accepted_of_none hs), run_cons, run_cons]
      exact ih _
    | some e =>
      -- The step is not run on the left; on the right it leaves the machine as it is.
      rw [List.filter_cons_of_neg (Bool.eq_false_iff.1 (Step.accepted_of_some hs)), run_cons,
        m.step_of_refusal hs]
      exact ih m

/-- The steps that are not refused answer as they do among the refused ones. -/
theorem transcript_filter_accepted (m : Machine n) (steps : List (Step n)) :
    m.transcript (steps.filter Step.accepted) =
      (m.transcript steps).filter fun line => line.1.accepted := by
  induction steps generalizing m with
  | nil => rfl
  | cons s rest ih =>
    cases hs : s.refusal? with
    | none =>
      simp only [List.filter_cons, Step.accepted_of_none hs, if_true, transcript_cons, ih]
    | some e =>
      simp only [List.filter_cons, Step.accepted_of_some hs, Bool.false_eq_true, if_false,
        transcript_cons, m.step_of_refusal hs, ih]

/-- The last step that names a dialect decides which one is current. -/
theorem run_dialect (m : Machine n) (steps : List (Step n)) :
    (m.run steps).2.dialect = (steps.filterMap Step.dialect?).getLast?.getD m.dialect := by
  induction steps generalizing m with
  | nil => rfl
  | cons s rest ih =>
    have hstep := m.step_dialect s
    rw [run_cons, ih]
    cases hs : s.dialect? with
    | none =>
      rw [hs] at hstep
      rw [List.filterMap_cons_none hs, hstep]
      rfl
    | some d =>
      rw [hs] at hstep
      rw [List.filterMap_cons_some hs, hstep, List.getLast?_cons]
      rfl

/-- A step fails exactly with its refusal and then changes nothing, so a program without its refused
steps ends in the same machine and answers the steps that are left as before. The last step that
names a dialect tells which one is current in the end. -/
theorem refused_steps_invisible (registers : Vector Register n) (steps : List (Step n)) :
    let start : Machine n := { registers }
    let kept := steps.filter Step.accepted
    (∀ (m : Machine n) (s : Step n) (e : Error),
      ((m.step s).1 = .error e ↔ s.refusal? = some e) ∧
        (s.refusal? = some e → (m.step s).2 = m)) ∧
    (start.run kept).2 = (start.run steps).2 ∧
    (start.run steps).1.length = steps.length ∧
    start.transcript kept = (start.transcript steps).filter (fun line => line.1.accepted) ∧
    (start.run steps).2.dialect = (steps.filterMap Step.dialect?).getLast?.getD ⟨2⟩ := by
  intro start kept
  refine ⟨fun m s e => ⟨m.step_error_iff s e, fun h => ?_⟩, start.run_filter_accepted steps,
    start.length_run steps, start.transcript_filter_accepted steps, start.run_dialect steps⟩
  rw [m.step_of_refusal h]

end Machine

/-! ## The effect of a step -/

variable {n : Nat}

namespace Step

/-- The register that a step writes, and what it writes there, unless it is refused. -/
def write? (d : Dialect) (registers : Vector Register n) : Step n → Option (Fin n × Register)
  | setDialect _ => none
  | loadWords words dst => (Register.ofWords words).toOption.map (dst, ·)
  | loadBytes bytes dst => (Register.ofBytes bytes).toOption.map (dst, ·)
  | splat src lane dst =>
    (Lane.ofIndex lane).toOption.map fun l => (dst, Quad.splat ((registers.get src).get l))
  | execute i dst => some (dst, ((i.map registers.get).result d).toRegister)

/-- The events that a step adds to the log; no dialect has a say in them. -/
def events (registers : Vector Register n) : Step n → List Event
  | setDialect source => source.events
  | execute i _ => (i.map registers.get).events
  | loadWords .. | loadBytes .. | splat .. => []

end Step

namespace Machine

/-- The registers after a write, if there is one. -/
def written (registers : Vector Register n) : Option (Fin n × Register) → Vector Register n
  | none => registers
  | some (dst, r) => registers.set dst r dst.isLt

/-- A step that writes what it finds, if it finds it, does nothing else. -/
theorem step_of_find {α : Type} (m : Machine n) {s : Step n} {found : Except Error α}
    {value : α → Register} {dst : Fin n}
    (h : s.apply m = found.bind fun a => .ok (.register (value a), m.write dst (value a) [])) :
    (m.step s).2 =
      { registers := written m.registers (found.toOption.map fun a => (dst, value a))
        dialect := m.dialect
        log := m.log ++ [] } := by
  rw [step, h]
  cases found with
  | ok a => rfl
  | error e =>
    rw [List.append_nil]
    rfl

/-- Everything that a step does: it writes a register at most, sets a dialect at most and adds its
events to the log. -/
theorem step_eq (m : Machine n) (s : Step n) :
    (m.step s).2 =
      { registers := written m.registers (s.write? m.dialect m.registers)
        dialect := s.dialect?.getD m.dialect
        log := m.log ++ s.events m.registers } := by
  cases s with
  | setDialect source =>
    cases source with
    | bits b => rfl
    | text t =>
      simp only [step, Step.apply, Step.write?, Step.dialect?, Step.events, Dialect.Source.read,
        Dialect.Source.events]
      cases Dialect.parse t with
      | ok d => rfl
      | error e =>
        rw [List.append_nil]
        rfl
  | loadWords words dst => exact m.step_of_find rfl
  | loadBytes bytes dst => exact m.step_of_find rfl
  | splat src lane dst => exact m.step_of_find rfl
  | execute i dst => rfl

theorem registers_step (m : Machine n) (s : Step n) :
    (m.step s).2.registers = written m.registers (s.write? m.dialect m.registers) := by
  rw [step_eq]

theorem registers_setDialect (m : Machine n) (source : Dialect.Source) :
    (m.step (.setDialect source)).2.registers = m.registers :=
  m.registers_step (.setDialect source)

theorem log_step (m : Machine n) (s : Step n) :
    (m.step s).2.log = m.log ++ s.events m.registers := by
  rw [step_eq]

end Machine

end FourLane
