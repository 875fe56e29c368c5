import FourLane.Proofs.Machine.Steps
import FourLane.Proofs.Register.Lanes
import Mathlib.Data.List.Basic

/-!
# Where a word comes from

A cell is one lane of one register. `Instruction.reads` lists the lanes that an instruction reads for
one lane of its result, `Step.sources` the cells on which a cell depends over one step, and
`Machine.origins` composes them backwards over a program, each step under the dialect that is current
when its turn comes.

Two machines that agree on the origins of a cell agree on the cell after the run. That needs two
facts about a step: what it writes is made from the cells it reads (`apply_congr`), and every other
cell keeps its word (`word_step_frame`).
-/

namespace FourLane

/-! ## What an instruction reads -/

namespace Register

/-- A dot product reads the lanes up to its width and no others. -/
theorem dot_congr {width : Nat} (sat : Bool) {a a' b b' : Register}
    (h : ∀ l ∈ Lane.all.take width, a.get l = a'.get l ∧ b.get l = b'.get l) :
    dot width sat a b = dot width sat a' b' := by
  unfold dot
  congr 1
  refine List.foldl_ext _ _ _ fun sum l hl => ?_
  rw [(h l hl).1, (h l hl).2]

/-- The register with `1.0` in one lane and zero in the others. -/
def unit (k : Lane) : Register := Quad.ofFn fun l => if l = k then Word.fone else 0

/-- Beside a register of ones a dot product tells a one among its lanes from a zero there. -/
theorem dot_unit_ne : ∀ width ∈ [2, 3, 4], ∀ k ∈ Lane.all.take width, ∀ sat : Bool,
    dot width sat (unit k) (Quad.splat Word.fone) ≠ dot width sat zero (Quad.splat Word.fone) ∧
    dot width sat (Quad.splat Word.fone) (unit k) ≠ dot width sat (Quad.splat Word.fone) zero := by
  decide +kernel

theorem get_unit_of_ne {k l : Lane} (h : l ≠ k) : (unit k).get l = zero.get l := by
  rw [unit, zero, Quad.get_ofFn, Quad.get_splat, if_neg h]

end Register

namespace Instruction

variable {ρ : Type}

/-- The lanes of its operands from which an instruction makes lane `l` of its result while `d` is
current. -/
def reads (d : Dialect) (l : Lane) : Instruction ρ → List (ρ × Lane)
  | mov sat a => [(a, if sat then .x else l)]
  | floatUnary _ _ a | convert _ a => [(a, l)]
  | floatBinary _ _ a b | integerBinary _ a b | compare _ a b | and a b | xor _ a b =>
    [(a, l), (b, l)]
  | dot width _ a b => (Lane.all.take width).flatMap fun k => [(a, k), (b, k)]
  | mad choice _ a b c | imad choice a b c =>
    [(a, l), (b, (choice.dialect d).factorLane l), (c, l)]

/-- A lane of a result depends on the lanes that the instruction reads for it. -/
theorem get_result_congr (d : Dialect) (i : Instruction ρ) (l : Lane) {f g : ρ → Register}
    (h : ∀ c ∈ i.reads d l, (f c.1).get c.2 = (g c.1).get c.2) :
    ((i.map f).result d).toRegister.get l = ((i.map g).result d).toRegister.get l := by
  -- Most instructions differ only in the function on words, so they go by the number of operands.
  cases i with
  | mov sat a =>
    have hread : (f a).get _ = (g a).get _ := h _ List.mem_cons_self
    cases sat with
    | false => exact hread
    | true => exact congrArg (fun w => (Quad.splat (Word.store true w)).get l) hread
  | dot width sat a b =>
    simp only [reads, List.mem_flatMap, List.mem_cons, List.not_mem_nil, or_false] at h
    simp only [map, result, Result.toRegister, Quad.get_splat]
    apply Register.dot_congr
    intro k hk
    exact ⟨h (a, k) ⟨k, hk, .inl rfl⟩, h (b, k) ⟨k, hk, .inr rfl⟩⟩
  | floatUnary | convert =>
    simp only [reads, List.mem_singleton, forall_eq] at h
    simp only [map, result, Result.toRegister, FloatUnary.get_apply, Conversion.get_apply, h]
  | floatBinary | integerBinary | compare | and | xor =>
    simp only [reads, List.mem_cons, List.not_mem_nil, or_false, forall_eq_or_imp, forall_eq] at h
    simp only [map, result, Result.toRegister, FloatBinary.get_apply, IntegerBinary.get_apply,
      Register.get_compare, Register.get_and, Register.get_xor, h]
  | mad | imad =>
    simp only [reads, List.mem_cons, List.not_mem_nil, or_false, forall_eq_or_imp, forall_eq] at h
    simp only [map, result, Result.toRegister, Register.get_mad, Register.get_imad,
      Register.get_factor, h]

end Instruction

/-! ## What a step reads and writes -/

variable {n : Nat}

/-- One lane of one register. -/
abbrev Cell (n : Nat) := Fin n × Lane

namespace Machine

/-- The word in a cell. -/
def word (m : Machine n) (c : Cell n) : Word := m.registers[c.1].get c.2

theorem word_write (m : Machine n) (dst : Fin n) (r : Register) (events : List Event) (c : Cell n) :
    (m.write dst r events).word c = if dst = c.1 then r.get c.2 else m.word c := by
  simp only [word, write, Fin.getElem_fin, Vector.getElem_set, Fin.ext_iff]
  split <;> rfl

end Machine

namespace Step

/-- The register that a step writes, unless it is refused. -/
def target? : Step n → Option (Fin n)
  | setDialect _ => none
  | loadWords _ dst | loadBytes _ dst | splat _ _ dst | execute _ dst => some dst

/-- The cells from which a step makes lane `l` of what it writes while `d` is current. -/
def reads (d : Dialect) (l : Lane) : Step n → List (Cell n)
  | setDialect _ | loadWords .. | loadBytes .. => []
  | splat src lane _ =>
    match Lane.ofIndex lane with
    | .ok k => [(src, k)]
    | .error _ => []
  | execute i _ => i.reads d l

/-- The cells before a step on which a cell after it depends: those from which the step makes it, or
the cell itself if the step does not write there. -/
def sources (d : Dialect) (s : Step n) (c : Cell n) : List (Cell n) :=
  if s.accepted = true ∧ s.target? = some c.1 then s.reads d c.2 else [c]

/-- On two machines a step writes words that are equal wherever it reads equal ones. -/
theorem apply_congr {m m' : Machine n} (hd : m.dialect = m'.dialect) {s : Step n} {dst : Fin n}
    {l : Lane} (ha : s.accepted = true) (ht : s.target? = some dst)
    (h : ∀ c ∈ s.reads m.dialect l, m.word c = m'.word c) :
    ∃ r r' events events', s.apply m = .ok (.register r, m.write dst r events) ∧
      s.apply m' = .ok (.register r', m'.write dst r' events') ∧ r.get l = r'.get l := by
  cases s with
  | setDialect source => cases ht
  -- A load reads no cell: both machines write the one register.
  | loadWords words dst =>
    cases ht
    rcases Register.ofWords_cases words with ⟨-, r, hr⟩ | ⟨hlen, -⟩
    · refine ⟨r, r, [], [], ?_, ?_, rfl⟩ <;> rw [apply, hr] <;> rfl
    · simp [accepted, refusal?, hlen] at ha
  | loadBytes bytes dst =>
    cases ht
    rcases Register.ofBytes_cases bytes with ⟨-, r, hr⟩ | ⟨hlen, -⟩
    · refine ⟨r, r, [], [], ?_, ?_, rfl⟩ <;> rw [apply, hr] <;> rfl
    · simp [accepted, refusal?, hlen] at ha
  | splat src lane dst =>
    cases ht
    rcases Lane.ofIndex_cases lane with ⟨-, k, hk⟩ | ⟨hle, -⟩
    · have hword : m.word (src, k) = m'.word (src, k) := h (src, k) (by simp [reads, hk])
      refine ⟨Quad.splat (m.word (src, k)), Quad.splat (m'.word (src, k)), [], [], ?_, ?_, ?_⟩
      · rw [apply, hk]
        rfl
      · rw [apply, hk]
        rfl
      · rw [hword]
    · simp [accepted, refusal?, hle] at ha
  | execute i dst =>
    cases ht
    refine ⟨_, _, _, _, rfl, rfl, ?_⟩
    rw [← hd]
    exact i.get_result_congr m.dialect l h

end Step

/-! ## One step, and a run -/

namespace Machine

theorem step_of_apply {m next : Machine n} {s : Step n} {answer : Answer}
    (h : s.apply m = .ok (answer, next)) : m.step s = (.ok answer, next) := by
  rw [step, h]

/-- A cell keeps its word over a step that is refused or writes elsewhere. -/
theorem word_step_frame (m : Machine n) {s : Step n} {c : Cell n}
    (h : ¬ (s.accepted = true ∧ s.target? = some c.1)) : (m.step s).2.word c = m.word c := by
  cases hs : s.refusal? with
  | some e => rw [m.step_of_refusal hs]
  | none =>
    have ha : s.accepted = true := Step.accepted_of_none hs
    cases ht : s.target? with
    | none =>
      cases s with
      | setDialect source => rw [word, registers_setDialect, word]
      | _ => cases ht
    | some dst =>
      have hne : dst ≠ c.1 := by
        rintro rfl
        exact h ⟨ha, ht⟩
      obtain ⟨r, -, events, -, happly, -⟩ :=
        Step.apply_congr (m := m) rfl (l := c.2) ha ht fun _ _ => rfl
      rw [step_of_apply happly, word_write, if_neg hne]

/-- A word after a step depends on the words that the step takes it from. -/
theorem word_step_congr {m m' : Machine n} (hd : m.dialect = m'.dialect) {s : Step n} {c : Cell n}
    (h : ∀ k ∈ s.sources m.dialect c, m.word k = m'.word k) :
    (m.step s).2.word c = (m'.step s).2.word c := by
  unfold Step.sources at h
  split at h
  · rename_i hwrites
    obtain ⟨r, r', events, events', happly, happly', hr⟩ :=
      Step.apply_congr hd hwrites.1 hwrites.2 h
    rw [step_of_apply happly, step_of_apply happly', word_write, word_write, if_pos rfl,
      if_pos rfl, hr]
  · rename_i hkeeps
    rw [m.word_step_frame hkeeps, m'.word_step_frame hkeeps]
    exact h c (List.mem_singleton_self c)

/-- The cells before a program on which a cell after it depends, if `d` is current before it. -/
def origins (d : Dialect) : List (Step n) → Cell n → List (Cell n)
  | [], c => [c]
  | s :: rest, c => (origins (s.dialect?.getD d) rest c).flatMap (s.sources d)

/-- A word after a run depends on the words that it comes from. -/
theorem word_run_congr {m m' : Machine n} (hd : m.dialect = m'.dialect) {steps : List (Step n)}
    {c : Cell n} (h : ∀ k ∈ origins m.dialect steps c, m.word k = m'.word k) :
    (m.run steps).2.word c = (m'.run steps).2.word c := by
  induction steps generalizing m m' with
  | nil => exact h c (List.mem_singleton_self c)
  | cons s rest ih =>
    have hdialect : (m.step s).2.dialect = (m'.step s).2.dialect := by
      rw [step_dialect, step_dialect, hd]
    rw [run_cons, run_cons]
    apply ih hdialect
    -- After the step the machines agree on the origins over the rest, each through its sources.
    intro k hk
    rw [step_dialect] at hk
    apply word_step_congr hd
    intro j hj
    exact h j (List.mem_flatMap.2 ⟨k, hk, hj⟩)

/-- What the other cells hold does not matter to a cell after a run: two machines that agree on its
origins end with the same word there. A dot product reads no lane for nothing: each of its lanes, of
either operand, decides some result. -/
theorem word_determined_by_origins :
    (∀ m m' : Machine n, m.dialect = m'.dialect → ∀ steps c,
      (∀ k ∈ origins m.dialect steps c, m.word k = m'.word k) →
      (m.run steps).2.word c = (m'.run steps).2.word c) ∧
    ∀ width ∈ [2, 3, 4], ∀ k ∈ Lane.all.take width, ∀ sat, ∃ a a' b : Register,
      (∀ l, l ≠ k → a.get l = a'.get l) ∧
      Register.dot width sat a b ≠ Register.dot width sat a' b ∧
      Register.dot width sat b a ≠ Register.dot width sat b a' := by
  refine ⟨fun m m' hd steps c h => word_run_congr hd h, fun width hwidth k hk sat => ?_⟩
  obtain ⟨hleft, hright⟩ := Register.dot_unit_ne width hwidth k hk sat
  exact ⟨Register.unit k, Register.zero, Quad.splat Word.fone,
    fun l hl => Register.get_unit_of_ne hl, hleft, hright⟩

/-- A multiply-add whose second factor comes from lane `x`, a dot product of two lanes and a copy of
a lane, with refused steps between them. The NaNs and infinities in lanes `z` and `w` are seen by
nobody. -/
theorem word_determined_by_origins_chain :
    let program : List (Step 3) :=
      [.setDialect (.text " MAD-src1-lane-x ,"), .execute (.mad .current false 0 1 2) 2,
        .splat 0 7 1, .setDialect (.text "fast"), .execute (.dot 2 true 2 1) 0, .splat 0 2 1]
    let m : Machine 3 := { registers :=
      #v[⟨0x3e800000, 0x3f000000, 3, 4⟩, ⟨0x3f800000, 6, 0x7f800001, 0xff800000⟩,
        ⟨0x3e000000, 0x7f800000, 0, 0⟩] }
    let m' : Machine 3 := { registers :=
      #v[⟨0x3e800000, 0x3f000000, 0x7fc00000, 0⟩, ⟨0x3f800000, 6, 0, 0⟩,
        ⟨0x3e000000, 0x7f800000, 7, 0xff800001⟩] }
    m.registers ≠ m'.registers ∧
    (∀ k ∈ origins m.dialect program (1, .w), m.word k = m'.word k) ∧
    (m.run program).2.word (1, .w) = (m'.run program).2.word (1, .w) := by
  intro program m m'
  have hd : m.dialect = m'.dialect := rfl
  have hagree : ∀ k ∈ origins m.dialect program (1, .w), m.word k = m'.word k := by
    decide +kernel
  have hword := word_determined_by_origins.1 m m' hd program (1, .w) hagree
  exact ⟨by decide +kernel, hagree, hword⟩

end Machine

end FourLane
