import FourLane.Proofs.Machine.Steps
import FourLane.Proofs.Register.ConversionEvents

/-!
# The log of a program

A step adds to the log what `Step.exactEvents` says: the events of the four lanes of a register that
is converted to integers, in their order, or the event of a text that was read as a dialect. The log
of a run is what was there before, and then the events of its steps, each with the registers that the
step finds.
-/

namespace FourLane

namespace Register

/-- The events of the lanes of a register, in their order. -/
def exactEvents (a : Register) : List Event := Lane.all.filterMap fun l => (a.get l).exactEvent?

/-- The conversions report the lanes that hold no integer of their own. -/
theorem conversionEvents_eq_exactEvents (a : Register) : a.conversionEvents = a.exactEvents := by
  rw [conversionEvents, exactEvents, Quad.toList_eq_map_get, List.filterMap_map]
  congr 1
  funext l
  exact (a.get l).conversionEvent?_eq_exactEvent?

theorem level_of_mem_exactEvents {a : Register} {e : Event} (h : e ∈ a.exactEvents) :
    e.level = .trace := by
  obtain ⟨l, -, hl⟩ := List.mem_filterMap.1 h
  rcases (a.get l).exactEvent?_cases with hevent | hevent | hevent <;>
  · rw [hevent] at hl
    cases hl <;> rfl

end Register

variable {n : Nat}

namespace Step

/-- What a step is to report: the lanes of its operand if it converts to integers, and the dialect if
it gives one by a text. -/
def exactEvents (registers : Vector Register n) : Step n → List Event
  | setDialect (.text text) => (Dialect.parse text).toOption.toList.map (.dialectRead · text)
  | execute (.convert .ftoi a) _ | execute (.convert .ftou a) _ => (registers.get a).exactEvents
  | _ => []

/-- The events of a step, by the numbers of the lanes it reads. -/
theorem events_eq_exactEvents (registers : Vector Register n) (s : Step n) :
    s.events registers = s.exactEvents registers := by
  cases s with
  | setDialect source =>
    cases source with
    | bits => rfl
    | text t =>
      simp only [events, exactEvents, Dialect.Source.events]
      cases Dialect.parse t <;> rfl
  | loadWords | loadBytes | splat => rfl
  | execute i dst =>
    cases i with
    | convert op a =>
      have hlanes := (registers.get a).conversionEvents_eq_exactEvents
      cases op with
      | ftoi | ftou => exact hlanes
      | itof | utof => rfl
    | _ => rfl

end Step

namespace Machine

/-- The steps of a program, each with the machine that it finds. -/
def history (m : Machine n) : List (Step n) → List (Machine n × Step n)
  | [] => []
  | s :: rest => (m, s) :: (m.step s).2.history rest

theorem log_run (m : Machine n) (steps : List (Step n)) :
    (m.run steps).2.log =
      m.log ++ (m.history steps).flatMap fun line => line.2.exactEvents line.1.registers := by
  induction steps generalizing m with
  | nil => exact (List.append_nil m.log).symm
  | cons s rest ih =>
    rw [run_cons, ih, log_step, Step.events_eq_exactEvents, history, List.flatMap_cons,
      List.append_assoc]

/-- The log has, for each step in its turn, the lanes that hold no integer of their own if the step
converts to integers, and one event for a text that names a dialect; nothing else is logged. -/
theorem log_is_exact (m : Machine n) (steps : List (Step n)) :
    (∀ a : Register, Conversion.ftoi.events a = a.exactEvents ∧
      Conversion.ftou.events a = a.exactEvents ∧ ∀ e ∈ a.exactEvents, e.level = .trace) ∧
    (∀ x : Word, (x.exactEvent? = some (.nanToInteger x) ↔ x.value = none) ∧
      (x.exactEvent? = some (.clampedToInteger x) ↔
        ∃ v, x.value = some v ∧ (v < ((-2 ^ 31 : ℝ) : EReal) ∨ ((2 ^ 31 : ℝ) : EReal) ≤ v)) ∧
      (x.exactEvent? = none ↔
        ∃ v, x.value = some v ∧ ((-2 ^ 31 : ℝ) : EReal) ≤ v ∧ v < ((2 ^ 31 : ℝ) : EReal))) ∧
    (∀ d text, (Event.dialectRead d text).level = .debug) ∧
    (m.run steps).2.log =
      m.log ++ (m.history steps).flatMap fun line => line.2.exactEvents line.1.registers := by
  refine ⟨fun a => ?_, fun x => ?_, fun d text => rfl, m.log_run steps⟩
  · have hlanes := a.conversionEvents_eq_exactEvents
    exact ⟨hlanes, hlanes, fun e => Register.level_of_mem_exactEvents⟩
  · exact ⟨x.exactEvent?_eq_nanToInteger_iff, x.exactEvent?_eq_clampedToInteger_iff,
      x.exactEvent?_eq_none_iff⟩

end Machine

end FourLane
