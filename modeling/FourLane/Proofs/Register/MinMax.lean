import FourLane.Proofs.Binary32.Numbers
import FourLane.Proofs.Saturation

/-!
# The lesser and the greater of lanes

Everything about two lanes comes from one case split on their numbers (`fmin_fmax_cases`): either the
first word is the lesser and the second the greater one, or the other way round. The tests of the
two instructions are negations of each other on numbers, so a tie is no case of its own: both
zeros, or two equal words, fall into the second case. Beside a NaN neither test holds, and both
instructions select their second operand (`fmin_fmax_of_nan`).

A row of registers can be joined by one instruction in many bracketings. Where no lane is a NaN, every
bracketing of maxima selects the first of the greatest lanes, and every bracketing of minima the last of
the least: of equals one instruction keeps the left operand and the other the right one. So the bits do
not depend on the bracketing, and the number does not depend on the order of the row either. Both are
one induction over the tree. At a node each side has selected an element that bounds its side, so the
side that is not selected stands to the selected element as its own one does
(`Bracketing.selected_fold`).
-/

namespace FourLane

namespace Word

variable {x y : Word} {u v : EReal}

/-- On numbers one result is the lesser operand and the other the greater. -/
theorem fmin_fmax_cases (hx : x.value = some u) (hy : y.value = some v) :
    (u < v ∧ fmin x y = x ∧ fmax x y = y) ∨ (v ≤ u ∧ fmin x y = y ∧ fmax x y = x) := by
  have hlt := flt_iff_value hx hy
  have hge := fge_iff_value hx hy
  unfold fmin fmax
  rcases lt_or_ge u v with h | h
  · exact .inl ⟨h, if_pos (hlt.2 h), if_neg (mt hge.1 h.not_ge)⟩
  · exact .inr ⟨h, if_neg (mt hlt.1 h.not_gt), if_pos (hge.2 h)⟩

/-- With a NaN both results are the second operand. -/
theorem fmin_fmax_of_nan (h : x.value = none ∨ y.value = none) : fmin x y = y ∧ fmax x y = y := by
  obtain ⟨hlt, hge, -⟩ := compare_of_nan h
  simp [fmin, fmax, hlt, hge]

/-! ## On numbers nothing is lost -/

theorem fmin_fmax_perm (hx : x.value = some u) (hy : y.value = some v) :
    [fmin x y, fmax x y].Perm [x, y] := by
  rcases fmin_fmax_cases hx hy with ⟨-, hmin, hmax⟩ | ⟨-, hmin, hmax⟩
  · rw [hmin, hmax]
  · rw [hmin, hmax]
    exact .swap x y []

theorem value_fmin_le_value_fmax (hx : x.value = some u) (hy : y.value = some v) :
    ∃ p q, (fmin x y).value = some p ∧ (fmax x y).value = some q ∧ p ≤ q := by
  rcases fmin_fmax_cases hx hy with ⟨h, hmin, hmax⟩ | ⟨h, hmin, hmax⟩
  · rw [hmin, hmax]
    exact ⟨u, v, hx, hy, h.le⟩
  · rw [hmin, hmax]
    exact ⟨v, u, hy, hx, h⟩

/-- The law of the two selections, seen through what `f` keeps of a word: all of it, or its number
after the clamp. -/
theorem map_fmin_eq_iff {α : Type} (f : Word → α) (hx : x.value = some u) (hy : y.value = some v) :
    f (fmin x y) = f x ↔ f (fmax x y) = f y := by
  rcases fmin_fmax_cases hx hy with ⟨-, hmin, hmax⟩ | ⟨-, hmin, hmax⟩
  · simp [hmin, hmax]
  · rw [hmin, hmax]
    exact eq_comm

/-- The law fails exactly where a NaN makes both selections return the second word and that is not
the first one as well. -/
theorem not_fmin_eq_iff_fmax_eq (x y : Word) :
    ¬ (fmin x y = x ↔ fmax x y = y) ↔ (x.value = none ∨ y.value = none) ∧ x ≠ y := by
  by_cases hnan : x.value = none ∨ y.value = none
  · obtain ⟨hmin, hmax⟩ := fmin_fmax_of_nan hnan
    rw [hmin, hmax, eq_self_iff_true, iff_true, and_iff_right hnan]
    exact ne_comm
  · rw [not_or] at hnan
    obtain ⟨u, hx⟩ := Option.ne_none_iff_exists'.1 hnan.1
    obtain ⟨v, hy⟩ := Option.ne_none_iff_exists'.1 hnan.2
    have hlaw : fmin x y = x ↔ fmax x y = y := map_fmin_eq_iff id hx hy
    simp [hlaw, hx, hy]

end Word

namespace Register

/-- Where two lanes are numbers, the lesser and the greater are these two words, each once, and the
lesser is the first exactly where the greater is the second; after the clamp this holds of the
numbers. Beside a NaN both are the second, so there the law fails unless the two words are one. -/
theorem min_max_complementary (a b : Register) (l : Lane) :
    let x := a.get l
    let y := b.get l
    let least := (min false a b).get l
    let greatest := (max false a b).get l
    (∀ u v, x.value = some u → y.value = some v →
      [least, greatest].Perm [x, y] ∧
      (∃ p q, least.value = some p ∧ greatest.value = some q ∧ p ≤ q) ∧
      (least = x ↔ greatest = y) ∧
      (((min true a b).get l).value = (Word.saturate x).value ↔
        ((max true a b).get l).value = (Word.saturate y).value)) ∧
    (x.value = none ∨ y.value = none → least = y ∧ greatest = y) ∧
    (¬ (least = x ↔ greatest = y) ↔ (x.value = none ∨ y.value = none) ∧ x ≠ y) := by
  intro x y least greatest
  have hleast : least = Word.fmin x y := get_min a b l false
  have hgreatest : greatest = Word.fmax x y := get_max a b l false
  rw [hleast, hgreatest, get_min, get_max, Word.store_true, Word.store_true]
  refine ⟨fun u v hx hy => ?_, Word.fmin_fmax_of_nan, Word.not_fmin_eq_iff_fmax_eq x y⟩
  exact ⟨Word.fmin_fmax_perm hx hy, Word.value_fmin_le_value_fmax hx hy,
    Word.map_fmin_eq_iff id hx hy, Word.map_fmin_eq_iff (fun w => (Word.saturate w).value) hx hy⟩

/-- The two zeros in lane `x`, and in lane `y` a NaN with a payload of its own before `1.0`. -/
theorem min_max_complementary_zeros_nan :
    let a : Register := ⟨0, 0x7f800001, 0, 0⟩
    let b : Register := ⟨0x80000000, Word.fone, 0, 0⟩
    [(min false a b).x, (max false a b).x].Perm [0, 0x80000000] ∧
    ((min false a b).x = 0 ↔ (max false a b).x = 0x80000000) ∧
    (min false a b).y = Word.fone ∧ (max false a b).y = Word.fone ∧
    ¬ ((min false a b).y = 0x7f800001 ↔ (max false a b).y = Word.fone) := by
  intro a b
  have hplus : a.x.value = some 0 := Word.value_zero
  have hminus : b.x.value = some 0 := by
    have hexp : Word.exponentField 0x80000000 = 0 := by decide
    have hsig : Word.significand 0x80000000 = 0 := by decide
    change Word.value 0x80000000 = some 0
    rw [Word.value, hexp, if_pos (by decide), Word.rational, hsig]
    norm_num
  have hnan : a.y.value = none := (Binary32.isNaN_iff_value _).1 (by decide +kernel)
  obtain ⟨hnumbers, -, -⟩ := min_max_complementary a b .x
  obtain ⟨hperm, -, hiff, -⟩ := hnumbers 0 0 hplus hminus
  obtain ⟨-, hsecond, hfails⟩ := min_max_complementary a b .y
  exact ⟨hperm, hiff, (hsecond (.inl hnan)).1, (hsecond (.inl hnan)).2,
    hfails.2 ⟨.inl hnan, by decide⟩⟩

end Register

/-! ## Bracketings -/

/-- A way to join a row of operands two at a time. -/
inductive Bracketing (α : Type) where
  | single (a : α)
  | join (left right : Bracketing α)

namespace Bracketing

variable {α β : Type}

/-- The operands, in order. -/
def operands : Bracketing α → List α
  | single a => [a]
  | join left right => left.operands ++ right.operands

/-- Joins by an operation. -/
def fold (op : α → α → α) : Bracketing α → α
  | single a => a
  | join left right => op (left.fold op) (right.fold op)

/-- The same bracketing of other operands. -/
def map (f : α → β) : Bracketing α → Bracketing β
  | single a => single (f a)
  | join left right => join (left.map f) (right.map f)

theorem operands_map (f : α → β) (t : Bracketing α) : (t.map f).operands = t.operands.map f := by
  induction t with
  | single a => rfl
  | join left right ihl ihr => simp [map, operands, ihl, ihr]

/-- What `f` sees of a fold is a fold of what it sees. -/
theorem apply_fold (f : α → β) {op : α → α → α} {op' : β → β → β}
    (h : ∀ a b, f (op a b) = op' (f a) (f b)) (t : Bracketing α) :
    f (t.fold op) = (t.map f).fold op' := by
  induction t with
  | single a => rfl
  | join left right ihl ihr => simp [map, fold, h, ihl, ihr]

end Bracketing

/-! ## The selected word of a row -/

namespace Word

/-- The word `w` of a row has the number `v`; the numbers before it are in relation `before` to `v`,
and those after it in relation `after`. -/
def Selected (before after : EReal → EReal → Prop) (row : List Word) (w : Word) (v : EReal) : Prop :=
  w.value = some v ∧ ∃ front back, row = front ++ w :: back ∧
    (∀ x ∈ front, ∃ u, x.value = some u ∧ before u v) ∧ ∀ x ∈ back, ∃ u, x.value = some u ∧ after u v

/-- The leftmost of the words with the greatest number. -/
def FirstGreatest (row : List Word) (w : Word) : Prop := ∃ v, Selected (· < ·) (· ≤ ·) row w v

/-- The rightmost of the words with the least number. -/
def LastLeast (row : List Word) (w : Word) : Prop := ∃ v, Selected (· ≥ ·) (· > ·) row w v

/-- The operation `op` selects one of two words, the right one if the numbers are in relation `before`
and the left one if they are in relation `after` the other way round. Both relations keep a number
within one `bound` of the selected one. -/
structure Selects (op : Word → Word → Word) (before after bound : EReal → EReal → Prop) : Prop where
  choose : ∀ {x y u v}, x.value = some u → y.value = some v →
    (before u v ∧ op x y = y) ∨ (after v u ∧ op x y = x)
  disjoint : ∀ {u v}, before u v → ¬ after v u
  refl : ∀ u, bound u u
  antisymm : ∀ {u v}, bound u v → bound v u → u = v
  bound_of_before : ∀ {u v}, before u v → bound u v
  bound_of_after : ∀ {u v}, after u v → bound u v
  before_of_bound : ∀ {u v w}, bound u v → before v w → before u w
  after_of_bound : ∀ {u v w}, bound u v → after v w → after u w

/-- The maximum selects the last of the greatest numbers. -/
theorem fmax_selects : Selects fmax (· < ·) (· ≤ ·) (· ≤ ·) where
  choose := fun hx hy => (fmin_fmax_cases hx hy).imp (And.imp_right And.right) (And.imp_right And.right)
  disjoint := not_le_of_gt
  refl := le_refl
  antisymm := le_antisymm
  bound_of_before := le_of_lt
  bound_of_after := id
  before_of_bound := lt_of_le_of_lt
  after_of_bound := le_trans

/-- The minimum selects the last of the least. -/
theorem fmin_selects : Selects fmin (· ≥ ·) (· > ·) (· ≥ ·) where
  choose := fun hx hy =>
    (fmin_fmax_cases hx hy).symm.imp (And.imp_right And.left) (And.imp_right And.left)
  disjoint := not_lt_of_ge
  refl := le_refl
  antisymm := fun huv hvu => le_antisymm hvu huv
  bound_of_before := id
  bound_of_after := le_of_lt
  before_of_bound := ge_trans
  after_of_bound := fun huv hvw => lt_of_lt_of_le hvw huv

section

variable {op : Word → Word → Word} {before after bound : EReal → EReal → Prop}
  {row row' : List Word} {w w' : Word} {v v' : EReal}

theorem Selected.append_left (h : Selected before after row w v)
    (hrow : ∀ x ∈ row', ∃ u, x.value = some u ∧ after u v) : Selected before after (row ++ row') w v := by
  obtain ⟨hv, front, back, rfl, hfront, hback⟩ := h
  refine ⟨hv, front, back ++ row', by simp, hfront, fun x hx => ?_⟩
  exact (List.mem_append.1 hx).elim (hback x) (hrow x)

theorem Selected.append_right (h : Selected before after row w v)
    (hrow : ∀ x ∈ row', ∃ u, x.value = some u ∧ before u v) : Selected before after (row' ++ row) w v := by
  obtain ⟨hv, front, back, rfl, hfront, hback⟩ := h
  refine ⟨hv, row' ++ front, back, by simp, fun x hx => ?_, hback⟩
  exact (List.mem_append.1 hx).elim (hrow x) (hfront x)

theorem Selected.mem (h : Selected before after row w v) : w ∈ row := by
  obtain ⟨-, front, back, rfl, -⟩ := h
  simp

/-- A selected word bounds its row. -/
theorem Selected.bounds (hs : Selects op before after bound) (h : Selected before after row w v) :
    ∀ x ∈ row, ∃ u, x.value = some u ∧ bound u v := by
  obtain ⟨hv, front, back, rfl, hfront, hback⟩ := h
  intro x hx
  rcases List.mem_append.1 hx with hx | hx
  · obtain ⟨u, hu, hbefore⟩ := hfront x hx
    exact ⟨u, hu, hs.bound_of_before hbefore⟩
  · rcases List.mem_cons.1 hx with rfl | hx
    · exact ⟨v, hv, hs.refl v⟩
    · obtain ⟨u, hu, hafter⟩ := hback x hx
      exact ⟨u, hu, hs.bound_of_after hafter⟩

/-- The selected words of two rows of the same words have the same number. -/
theorem Selected.value_eq (hs : Selects op before after bound) (h : Selected before after row w v)
    (h' : Selected before after row' w' v') (hperm : row.Perm row') : v = v' := by
  obtain ⟨u, hu, huv⟩ := h'.bounds hs w (hperm.mem_iff.1 h.mem)
  obtain ⟨u', hu', huv'⟩ := h.bounds hs w' (hperm.mem_iff.2 h'.mem)
  obtain rfl := Option.some.inj (hu.symm.trans h.1)
  obtain rfl := Option.some.inj (hu'.symm.trans h'.1)
  exact hs.antisymm huv huv'

theorem Selected.not_both (hs : Selects op before after bound) (hv : w.value = some v)
    (hv' : w'.value = some v') (hbefore : ∃ u, w.value = some u ∧ before u v')
    (hafter : ∃ u, w'.value = some u ∧ after u v) : False := by
  obtain ⟨u, hu, hbefore⟩ := hbefore
  obtain ⟨u', hu', hafter⟩ := hafter
  obtain rfl := Option.some.inj (hu.symm.trans hv)
  obtain rfl := Option.some.inj (hu'.symm.trans hv')
  exact hs.disjoint hbefore hafter

/-- One word of a row is selected: of two different places the one on the left would be before the other
one and the other one after it. -/
theorem Selected.unique (hs : Selects op before after bound) (h : Selected before after row w v)
    (h' : Selected before after row w' v') : w = w' := by
  obtain ⟨hv, front, back, rfl, hfront, hback⟩ := h
  obtain ⟨hv', front', back', hrow, hfront', hback'⟩ := h'
  rcases List.append_eq_append_iff.1 hrow with ⟨gap, rfl, hrest⟩ | ⟨gap, rfl, hrest⟩
  · cases gap with
    | nil => exact (List.cons.inj hrest).1
    | cons x gap =>
      obtain ⟨rfl, rfl⟩ := List.cons.inj hrest
      exact (Selected.not_both hs hv hv' (hfront' w (by simp)) (hback w' (by simp))).elim
  · cases gap with
    | nil => exact (List.cons.inj hrest).1.symm
    | cons x gap =>
      obtain ⟨rfl, rfl⟩ := List.cons.inj hrest
      exact (Selected.not_both hs hv' hv (hfront w' (by simp)) (hback' w (by simp))).elim

/-- A fold by an operation that selects one of two selects from the whole row of operands. -/
theorem exists_selected_fold (hs : Selects op before after bound) (t : Bracketing Word)
    (h : ∀ x ∈ t.operands, x.value ≠ none) :
    ∃ v, Selected before after t.operands (t.fold op) v := by
  induction t with
  | single x =>
    obtain ⟨v, hv⟩ := Option.ne_none_iff_exists'.1 (h x (List.mem_singleton_self x))
    exact ⟨v, hv, [], [], rfl, by simp, by simp⟩
  | join left right ihl ihr =>
    obtain ⟨u, hl⟩ := ihl fun x hx => h x (List.mem_append_left _ hx)
    obtain ⟨v, hr⟩ := ihr fun x hx => h x (List.mem_append_right _ hx)
    rw [Bracketing.operands, Bracketing.fold]
    rcases hs.choose hl.1 hr.1 with ⟨huv, hfold⟩ | ⟨hvu, hfold⟩
    · rw [hfold]
      refine ⟨v, hr.append_right fun x hx => ?_⟩
      obtain ⟨p, hp, hpu⟩ := hl.bounds hs x hx
      exact ⟨p, hp, hs.before_of_bound hpu huv⟩
    · rw [hfold]
      refine ⟨u, hl.append_left fun x hx => ?_⟩
      obtain ⟨p, hp, hpv⟩ := hr.bounds hs x hx
      exact ⟨p, hp, hs.after_of_bound hpv hvu⟩

/-- Bracketings of one row select the same word. -/
theorem fold_eq_of_operands_eq (hs : Selects op before after bound) {t t' : Bracketing Word}
    (h : ∀ x ∈ t.operands, x.value ≠ none) (hrow : t'.operands = t.operands) :
    t'.fold op = t.fold op := by
  obtain ⟨v, hv⟩ := exists_selected_fold hs t h
  obtain ⟨v', hv'⟩ := exists_selected_fold hs t' (hrow ▸ h)
  rw [hrow] at hv'
  exact hv'.unique hs hv

/-- Bracketings of a reordered row select the same number. -/
theorem sameUpToZeroSign_fold (hs : Selects op before after bound) {t t' : Bracketing Word}
    (h : ∀ x ∈ t.operands, x.value ≠ none) (hperm : t'.operands.Perm t.operands) :
    SameUpToZeroSign (t'.fold op) (t.fold op) := by
  obtain ⟨v, hv⟩ := exists_selected_fold hs t h
  obtain ⟨v', hv'⟩ := exists_selected_fold hs t' fun x hx => h x (hperm.mem_iff.1 hx)
  obtain rfl := hv'.value_eq hs hv hperm
  exact .of_value_eq hv'.1 hv.1

end

end Word

namespace Register

theorem get_fold_max (l : Lane) (t : Bracketing Register) :
    (t.fold (max false)).get l = (t.map (·.get l)).fold Word.fmax :=
  Bracketing.apply_fold (fun r : Register => r.get l) (fun a b => get_max a b l false) t

theorem get_fold_min (l : Lane) (t : Bracketing Register) :
    (t.fold (min false)).get l = (t.map (·.get l)).fold Word.fmin :=
  Bracketing.apply_fold (fun r : Register => r.get l) (fun a b => get_min a b l false) t

/-- Where no operand has a NaN lane, a bracketing of maxima selects the first of the greatest lanes and a
bracketing of minima the last of the least. Another bracketing of the same row gives the same bits, and
one of the same registers in another order the same lane up to the sign of a zero. -/
theorem bracketings_select (t : Bracketing Register) (l : Lane)
    (h : ∀ r ∈ t.operands, (r.get l).value ≠ none) :
    let row := t.operands.map (·.get l)
    let greatest := (t.fold (max false)).get l
    let least := (t.fold (min false)).get l
    Word.FirstGreatest row greatest ∧ Word.LastLeast row least ∧
    ∀ t' : Bracketing Register,
      let greatest' := (t'.fold (max false)).get l
      let least' := (t'.fold (min false)).get l
      (t'.operands = t.operands → greatest' = greatest ∧ least' = least) ∧
      (t'.operands.Perm t.operands →
        Word.SameUpToZeroSign greatest' greatest ∧ Word.SameUpToZeroSign least' least) := by
  have hrow : ∀ x ∈ (t.map (·.get l)).operands, x.value ≠ none := by
    intro x hx
    rw [t.operands_map, List.mem_map] at hx
    obtain ⟨r, hr, rfl⟩ := hx
    exact h r hr
  simp only [get_fold_max, get_fold_min, ← Bracketing.operands_map]
  refine ⟨Word.exists_selected_fold Word.fmax_selects _ hrow,
    Word.exists_selected_fold Word.fmin_selects _ hrow, fun t' => ⟨fun hsame => ?_, fun hperm => ?_⟩⟩
  · have hrows : (t'.map (·.get l)).operands = (t.map (·.get l)).operands := by
      rw [t'.operands_map, t.operands_map, hsame]
    exact ⟨Word.fold_eq_of_operands_eq Word.fmax_selects hrow hrows,
      Word.fold_eq_of_operands_eq Word.fmin_selects hrow hrows⟩
  · have hrows : (t'.map (·.get l)).operands.Perm (t.map (·.get l)).operands := by
      rw [t'.operands_map, t.operands_map]
      exact hperm.map _
    exact ⟨Word.sameUpToZeroSign_fold Word.fmax_selects hrow hrows,
      Word.sameUpToZeroSign_fold Word.fmin_selects hrow hrows⟩

/-- The two zeros and minus one: the zero on the left is the greatest, and another bracketing agrees. -/
theorem bracketings_select_zeros :
    let a : Register := Quad.splat 0x80000000
    let b : Register := Quad.splat 0
    let c : Register := Quad.splat 0xbf800000
    let t : Bracketing Register := .join (.join (.single a) (.single b)) (.single c)
    let t' : Bracketing Register := .join (.single a) (.join (.single b) (.single c))
    Word.FirstGreatest [0x80000000, 0, 0xbf800000] 0x80000000 ∧
    Word.LastLeast [0x80000000, 0, 0xbf800000] 0xbf800000 ∧
    (t.fold (max false)).x = 0x80000000 ∧
    (t'.fold (max false)).x = 0x80000000 ∧ (t'.fold (min false)).x = 0xbf800000 := by
  intro a b c t t'
  have hnumbers : ∀ r ∈ t.operands, (r.get .x).value ≠ none := by
    intro r hr hnan
    have hisNaN : (r.get .x).isNaN = true := (Binary32.isNaN_iff_value _).2 hnan
    have hnone : ∀ r ∈ t.operands, (r.get .x).isNaN = false := by decide +kernel
    rw [hnone r hr] at hisNaN
    cases hisNaN
  have hmax : (t.fold (max false)).get .x = 0x80000000 := by decide +kernel
  have hmin : (t.fold (min false)).get .x = 0xbf800000 := by decide +kernel
  obtain ⟨hgreatest, hleast, hothers⟩ := bracketings_select t .x hnumbers
  rw [hmax] at hgreatest hothers
  rw [hmin] at hleast hothers
  obtain ⟨hsame, -⟩ := hothers t'
  exact ⟨hgreatest, hleast, hmax, hsame rfl⟩

end Register

end FourLane
