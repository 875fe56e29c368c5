import FourLane.Text.Basic
import Mathlib.Data.List.DropRight

/-!
# What it means to cut and to trim a text

`Cut` and `Trimmed` say what the pieces of a text and the core of a piece are, without saying how
they are found. `cut_iff` and `trimmed_iff` show that `fields` and `trim` find them, and that there
is nothing else to find.
-/

namespace FourLane.Text

/-! ## Cutting -/

/-- `parts` are what stands between the separators of `text`. -/
structure Cut (separator : Char) (text : List Char) (parts : List (List Char)) : Prop where
  joined : [separator].intercalate parts = text
  nonempty : parts ≠ []
  clean : ∀ part ∈ parts, separator ∉ part

theorem fields_eq_splitOn (separator : Char) (text : List Char) :
    fields separator text = text.splitOn separator := by
  induction text with
  | nil => rfl
  | cons c text ih =>
    rw [fields, ih, List.splitOn_cons_eq_if_modifyHead]
    by_cases h : c = separator
    · simp [h]
    · obtain ⟨field, rest, hsplit⟩ := List.exists_cons_of_ne_nil (List.splitOn_ne_nil separator text)
      simp [h, hsplit]

theorem not_mem_of_mem_fields {separator : Char} {text : List Char} :
    ∀ part ∈ fields separator text, separator ∉ part := by
  induction text with
  | nil => simp [fields]
  | cons c text ih =>
    intro part hpart
    rw [fields] at hpart
    split at hpart
    · rcases List.mem_cons.1 hpart with rfl | hpart
      · exact List.not_mem_nil
      · exact ih part hpart
    · rename_i hc
      split at hpart
      · simp_all [Ne.symm hc]
      · rename_i field rest hfields
        rw [hfields] at ih
        rcases List.mem_cons.1 hpart with rfl | hpart
        · exact List.not_mem_cons_of_ne_of_not_mem (Ne.symm hc) (ih field List.mem_cons_self)
        · exact ih part (List.mem_cons_of_mem _ hpart)

/-- A text is cut into its fields, and in no other way. -/
theorem cut_iff {separator : Char} {text : List Char} {parts : List (List Char)} :
    Cut separator text parts ↔ parts = fields separator text := by
  constructor
  · rintro ⟨rfl, hne, hclean⟩
    rw [fields_eq_splitOn, List.splitOn_intercalate separator hclean hne]
  · rintro rfl
    refine ⟨?_, fields_ne_nil separator text, not_mem_of_mem_fields⟩
    rw [fields_eq_splitOn, List.intercalate_splitOn]

/-- A change of characters that neither makes nor removes a separator leaves the cuts in place. -/
theorem fields_map {separator : Char} {f : Char → Char}
    (hf : ∀ c, f c = separator ↔ c = separator) (text : List Char) :
    fields separator (text.map f) = (fields separator text).map (List.map f) := by
  induction text with
  | nil => rfl
  | cons c text ih =>
    simp only [List.map_cons, fields, hf, ih]
    split
    · rfl
    · cases fields separator text <;> rfl

/-- What stands before a text without a separator belongs to the first field. -/
theorem fields_clean_append {separator : Char} {front : List Char} (h : separator ∉ front)
    (text : List Char) : ∃ first rest, fields separator text = first :: rest ∧
      fields separator (front ++ text) = (front ++ first) :: rest := by
  induction front with
  | nil =>
    obtain ⟨first, rest, hfields⟩ := List.exists_cons_of_ne_nil (fields_ne_nil separator text)
    exact ⟨first, rest, hfields, hfields⟩
  | cons c front ih =>
    obtain ⟨hc, hfront⟩ := not_or.1 (mt List.mem_cons.2 h)
    obtain ⟨first, rest, htext, hfields⟩ := ih hfront
    refine ⟨first, rest, htext, ?_⟩
    rw [List.cons_append, fields, if_neg (Ne.symm hc), hfields, List.cons_append]

/-- What stands behind a text without a separator belongs to the last field. -/
theorem fields_append_clean {separator : Char} {back : List Char} (h : separator ∉ back)
    (text : List Char) : ∃ init last, fields separator text = init ++ [last] ∧
      fields separator (text ++ back) = init ++ [last ++ back] := by
  induction text with
  | nil =>
    obtain ⟨first, rest, hnil, hback⟩ := fields_clean_append h []
    cases hnil
    exact ⟨[], [], rfl, by simpa using hback⟩
  | cons c text ih =>
    obtain ⟨init, last, htext, hfields⟩ := ih
    rw [List.cons_append, fields, fields, htext, hfields]
    by_cases hc : c = separator
    · rw [if_pos hc, if_pos hc]
      exact ⟨[] :: init, last, rfl, rfl⟩
    · rw [if_neg hc, if_neg hc]
      cases init with
      | nil => exact ⟨[], c :: last, rfl, rfl⟩
      | cons field init => exact ⟨(c :: field) :: init, last, rfl, rfl⟩

theorem infix_of_mem_intercalate {α : Type} {separator part : List α} {parts : List (List α)}
    (h : part ∈ parts) : part <:+: separator.intercalate parts := by
  induction parts with
  | nil => cases h
  | cons p ps ih =>
    cases ps with
    | nil =>
      have hone : separator.intercalate [p] = part := by
        rw [List.intercalate_singleton, List.mem_singleton.1 h]
      exact hone ▸ List.infix_rfl
    | cons q qs =>
      rw [List.intercalate_cons_cons, List.append_assoc]
      rcases List.mem_cons.1 h with rfl | h
      · exact (List.prefix_append _ _).isInfix
      · exact (ih h).trans
          ((List.suffix_append _ _).isInfix.trans (List.suffix_append _ _).isInfix)

theorem Cut.isInfix {separator : Char} {text : List Char} {parts : List (List Char)}
    (h : Cut separator text parts) : ∀ part ∈ parts, part <:+: text :=
  fun _ hpart => h.joined ▸ infix_of_mem_intercalate hpart

/-! ## Trimming -/

/-- `core` is `part` without the blanks around it: only blanks were removed, and none is left at
either end. -/
structure Trimmed (part core : List Char) : Prop where
  removed : ∃ front back, part = front ++ core ++ back ∧
    (∀ c ∈ front, isBlank c = true) ∧ ∀ c ∈ back, isBlank c = true
  head : ∀ c ∈ core.head?, isBlank c = false
  last : ∀ c ∈ core.getLast?, isBlank c = false

theorem Trimmed.isInfix {part core : List Char} (h : Trimmed part core) : core <:+: part := by
  obtain ⟨front, back, rfl, -, -⟩ := h.removed
  exact ⟨front, back, rfl⟩

theorem trim_eq_rdropWhile (part : List Char) :
    trim part = (part.dropWhile isBlank).rdropWhile isBlank :=
  rfl

/-- What the library leaves of a part is trimmed. -/
theorem trimmed_trim (part : List Char) : Trimmed part (trim part) := by
  obtain ⟨rest, hrest⟩ : ∃ rest, rest = part.dropWhile isBlank := ⟨_, rfl⟩
  rw [trim_eq_rdropWhile, ← hrest]
  refine ⟨⟨part.takeWhile isBlank, rest.rtakeWhile isBlank, ?_, fun c hc => ?_, fun c hc => ?_⟩,
    fun c hc => ?_, fun c hc => ?_⟩
  · rw [List.append_assoc, List.rdropWhile_append_rtakeWhile, hrest, List.takeWhile_append_dropWhile]
  · exact List.mem_takeWhile_imp hc
  · exact List.mem_rtakeWhile_imp hc
  · -- The first character of the core is the first one that the front leaves.
    obtain ⟨back, hback⟩ := rest.rdropWhile_prefix isBlank
    have hhead : rest.head? = some c := by
      rw [← hback, List.head?_append, hc]
      rfl
    have h := List.head?_dropWhile_not isBlank part
    rwa [← hrest, hhead] at h
  · have hne : rest.rdropWhile isBlank ≠ [] := List.ne_nil_of_mem (List.mem_of_getLast? hc)
    rw [List.getLast?_eq_some_getLast hne, Option.mem_some] at hc
    have h := rest.rdropWhile_last_not isBlank hne
    rwa [hc, Bool.not_eq_true] at h

/-- What is trimmed of a part is what the library leaves of it. -/
theorem trim_eq_of_trimmed {part core : List Char} (h : Trimmed part core) : trim part = core := by
  obtain ⟨⟨front, back, rfl, hfront, hback⟩, hhead, hlast⟩ := h
  rw [trim_eq_rdropWhile, List.append_assoc, List.dropWhile_append_of_pos hfront]
  cases core with
  | nil =>
    rw [List.nil_append, List.dropWhile_eq_nil_iff.2 hback]
    rfl
  | cons c core =>
    have hc : ¬ isBlank c = true := by simp [hhead c rfl]
    rw [List.cons_append, List.dropWhile_cons_of_neg hc, ← List.cons_append, List.rdropWhile,
      List.reverse_append, List.dropWhile_append_of_pos (by simpa using hback)]
    refine List.rdropWhile_eq_self_iff.2 fun hne => ?_
    simp [hlast _ (List.getLast_mem_getLast? hne)]

theorem trimmed_iff {part core : List Char} : Trimmed part core ↔ core = trim part :=
  ⟨fun h => (trim_eq_of_trimmed h).symm, fun h => h ▸ trimmed_trim part⟩

/-- Nothing is left of blanks, and something of every other part. -/
theorem trim_eq_nil_iff {part : List Char} : trim part = [] ↔ ∀ c ∈ part, isBlank c = true := by
  constructor
  · intro h
    obtain ⟨front, back, hpart, hfront, hback⟩ := (trimmed_trim part).removed
    rw [h, List.append_nil] at hpart
    intro c hc
    rw [hpart, List.mem_append] at hc
    exact hc.elim (hfront c) (hback c)
  · intro h
    exact trim_eq_of_trimmed ⟨⟨part, [], by simp, h, by simp⟩, by simp, by simp⟩

/-- Blanks around a text are trimmed with those that it has itself. -/
theorem trim_pad {front back : List Char} (hfront : ∀ c ∈ front, isBlank c = true)
    (hback : ∀ c ∈ back, isBlank c = true) (part : List Char) :
    trim (front ++ part ++ back) = trim part := by
  have h := trimmed_trim part
  obtain ⟨front', back', hpart, hfront', hback'⟩ := h.removed
  refine trim_eq_of_trimmed ⟨⟨front ++ front', back' ++ back, ?_, ?_, ?_⟩, h.head, h.last⟩
  · conv_lhs => rw [hpart]
    simp only [List.append_assoc]
  · exact fun c hc => (List.mem_append.1 hc).elim (hfront c) (hfront' c)
  · exact fun c hc => (List.mem_append.1 hc).elim (hback' c) (hback c)

/-- A change of characters that neither makes nor removes a blank leaves the same part untrimmed. -/
theorem trim_map {f : Char → Char} (hf : ∀ c, isBlank (f c) = isBlank c) (part : List Char) :
    trim (part.map f) = (trim part).map f := by
  have hcomp : isBlank ∘ f = isBlank := funext hf
  rw [trim_eq_rdropWhile, trim_eq_rdropWhile, List.rdropWhile, List.rdropWhile, List.dropWhile_map,
    hcomp, ← List.map_reverse, List.dropWhile_map, hcomp, List.map_reverse]

end FourLane.Text
