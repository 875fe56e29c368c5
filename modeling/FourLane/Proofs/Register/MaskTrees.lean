import FourLane.Proofs.Register.Comparisons
import FourLane.Proofs.Register.Switches

/-!
# Masks are truth values

The logic instructions on masks are the connectives. `MaskOf p w` says that the word `w` is the mask of
`p`, and each instruction takes the masks of two propositions to the mask of one (`MaskOf.and`,
`MaskOf.or`, `MaskOf.xor`). So a tree of comparisons and logic instructions holds in every lane the mask
of the formula that it spells (`MaskTree.maskOf_eval`). Exclusive or is read as the dialect has it: as a
disjunction where the switch is on.
-/

namespace FourLane

namespace Word

/-! ## Connectives -/

theorem ofMask_or_ofMask (p q : Bool) : ofMask p ||| ofMask q = ofMask (p || q) := by
  cases p <;> cases q <;> decide

theorem ofMask_xor_ofMask (p q : Bool) : ofMask p ^^^ ofMask q = ofMask (p ^^ q) := by
  cases p <;> cases q <;> decide

section

variable {p q : Prop} {x y : Word}

theorem MaskOf.exists_ofMask (h : MaskOf p x) : ∃ holds, x = ofMask holds ∧ (holds = true ↔ p) := by
  rcases h with ⟨hp, hx⟩ | ⟨hp, hx⟩
  · exact ⟨true, hx, by simp [hp]⟩
  · exact ⟨false, hx, by simp [hp]⟩

theorem MaskOf.and (hx : MaskOf p x) (hy : MaskOf q y) : MaskOf (p ∧ q) (x &&& y) := by
  obtain ⟨hp, rfl, hpiff⟩ := hx.exists_ofMask
  obtain ⟨hq, rfl, hqiff⟩ := hy.exists_ofMask
  rw [ofMask_and_ofMask, ← hpiff, ← hqiff]
  exact maskOf_ofMask (Bool.and_eq_true_iff ..)

theorem MaskOf.or (hx : MaskOf p x) (hy : MaskOf q y) : MaskOf (p ∨ q) (x ||| y) := by
  obtain ⟨hp, rfl, hpiff⟩ := hx.exists_ofMask
  obtain ⟨hq, rfl, hqiff⟩ := hy.exists_ofMask
  rw [ofMask_or_ofMask, ← hpiff, ← hqiff]
  exact maskOf_ofMask (Bool.or_eq_true_iff ..)

theorem MaskOf.xor (hx : MaskOf p x) (hy : MaskOf q y) : MaskOf (Xor p q) (x ^^^ y) := by
  obtain ⟨hp, rfl, hpiff⟩ := hx.exists_ofMask
  obtain ⟨hq, rfl, hqiff⟩ := hy.exists_ofMask
  rw [ofMask_xor_ofMask, ← hpiff, ← hqiff]
  refine maskOf_ofMask ?_
  cases hp <;> cases hq <;> simp [Xor]

theorem MaskOf.eq_zero_or_allOnes (h : MaskOf p x) : x = 0 ∨ x = allOnes :=
  h.elim (fun h => .inr h.2) fun h => .inl h.2

theorem MaskOf.eq_allOnes_iff (h : MaskOf p x) : x = allOnes ↔ p := by
  rcases h with ⟨hp, hx⟩ | ⟨hp, hx⟩
  · exact iff_of_true hx hp
  · exact iff_of_false (hx ▸ by decide) hp

/-- Under a mask a word is kept or cleared. -/
theorem MaskOf.and_word (h : MaskOf p x) (y : Word) : (p ∧ x &&& y = y) ∨ (¬ p ∧ x &&& y = 0) := by
  rcases h with ⟨hp, rfl⟩ | ⟨hp, rfl⟩
  · exact .inl ⟨hp, BitVec.allOnes_and⟩
  · exact .inr ⟨hp, BitVec.zero_and⟩

end

end Word

/-! ## Trees of masks -/

/-- Comparisons joined by logic instructions. An exclusive or that names no dialect follows the standard
one; each other exclusive or follows a dialect of its own. -/
inductive MaskTree where
  | comparison (op : Comparison) (a b : Register)
  | and (left right : MaskTree)
  | xor (left right : MaskTree)
  | xorWith (d : Dialect) (left right : MaskTree)

namespace MaskTree

/-- What the instructions of a tree compute. -/
def eval : MaskTree → Register
  | comparison op a b => Register.compare op a b
  | and s t => Register.and s.eval t.eval
  | xor s t => Register.xor .standard s.eval t.eval
  | xorWith d s t => Register.xor d s.eval t.eval

/-- The formula that a tree spells, about one lane of the registers that are compared. -/
def Holds : MaskTree → Lane → Prop
  | comparison op a b, l => op.Holds (a.get l) (b.get l)
  | and s t, l => s.Holds l ∧ t.Holds l
  | xor s t, l => s.Holds l ∨ t.Holds l
  | xorWith d s t, l =>
    if d.bits.getLsbD 1 then s.Holds l ∨ t.Holds l else Xor (s.Holds l) (t.Holds l)

/-- A tree evaluates to the mask of its formula, node by node. -/
theorem maskOf_eval (t : MaskTree) (l : Lane) : Word.MaskOf (t.Holds l) (t.eval.get l) := by
  induction t with
  | comparison op a b =>
    rw [eval, Register.get_compare]
    exact Word.maskOf_ofMask (op.holds_iff _ _)
  | and s t ihs iht =>
    rw [eval, Register.get_and]
    exact ihs.and iht
  | xor s t ihs iht =>
    rw [eval, Register.get_xor, Dialect.xorWords_of_on rfl]
    exact ihs.or iht
  | xorWith d s t ihs iht =>
    rw [eval, Register.get_xor, Holds]
    cases hbit : d.bits.getLsbD 1 with
    | true =>
      rw [Dialect.xorWords_of_on hbit, if_pos rfl]
      exact ihs.or iht
    | false =>
      rw [Dialect.xorWords_of_off hbit, if_neg Bool.false_ne_true]
      exact ihs.xor iht

end MaskTree

namespace Register

theorem and_exchange (a b : Register) : and a b = and b a := by
  apply Quad.ext_get
  intro l
  rw [get_and, get_and, BitVec.and_comm]

/-- Every lane of a tree of comparisons and logic instructions is zero or all ones, and all ones where the
formula of the tree holds. On either side of a conjunction with a register it keeps the lanes where the
formula holds and clears the others. -/
theorem mask_trees_decide_formulas (t : MaskTree) (l : Lane) :
    (t.eval.get l = 0 ∨ t.eval.get l = Word.allOnes) ∧
    (t.eval.get l = Word.allOnes ↔ t.Holds l) ∧
    ∀ r : Register, and r t.eval = and t.eval r ∧
      ((t.Holds l ∧ (and t.eval r).get l = r.get l) ∨ (¬ t.Holds l ∧ (and t.eval r).get l = 0)) := by
  have h := t.maskOf_eval l
  refine ⟨h.eq_zero_or_allOnes, h.eq_allOnes_iff, fun r => ⟨and_exchange r t.eval, ?_⟩⟩
  rw [get_and]
  exact h.and_word (r.get l)

-- A comparison joined with itself: the standard dialect keeps it and the plain one clears it.
example :
    let t : MaskTree := .comparison .lt (Quad.splat 0) (Quad.splat Word.fone)
    ((MaskTree.xor t t).eval, (MaskTree.xorWith .plain t t).eval) =
      (Quad.splat Word.allOnes, Quad.splat 0) := by
  decide

end Register

end FourLane
