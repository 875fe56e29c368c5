import FourLane.Proofs.Dialect.Grammar

/-!
# The names in a text that is made of others

The names of a text joined by commas are those of its parts, one part after the other
(`names_intercalate`). Blanks around a part do not change its names (`names_pad`), a part of blanks
has none (`names_eq_nil_iff`), and changing the case of ASCII letters changes them only so
(`names_map_foldAscii`).
-/

namespace FourLane.Dialect

open Text (isBlank trim fields)

/-! ## Letters -/

/-- A character is its own small form, or one of the capital ASCII letters. -/
theorem foldAscii_cases (c : Char) :
    foldAscii c = c ∨ ∃ i : Fin 26, c = Char.ofNat (65 + i.val) := by
  unfold foldAscii
  by_cases h : 65 ≤ c.toNat ∧ c.toNat ≤ 90
  · refine .inr ⟨⟨c.toNat - 65, by omega⟩, ?_⟩
    have hcode : 65 + (c.toNat - 65) = c.toNat := by omega
    rw [hcode, Char.ofNat_toNat]
  · exact .inl (if_neg h)

theorem foldAscii_capital : ∀ i : Fin 26,
    let c := Char.ofNat (65 + i.val)
    foldAscii (foldAscii c) = foldAscii c ∧ isBlank (foldAscii c) = isBlank c ∧
      (foldAscii c = ',' ↔ c = ',') := by
  decide

theorem foldAscii_foldAscii (c : Char) : foldAscii (foldAscii c) = foldAscii c := by
  rcases foldAscii_cases c with h | ⟨i, rfl⟩
  · rw [h, h]
  · exact (foldAscii_capital i).1

/-- Letters are no blanks and no commas, in either case. -/
theorem isBlank_foldAscii (c : Char) : isBlank (foldAscii c) = isBlank c := by
  rcases foldAscii_cases c with h | ⟨i, rfl⟩
  · rw [h]
  · exact (foldAscii_capital i).2.1

theorem foldAscii_eq_comma_iff (c : Char) : foldAscii c = ',' ↔ c = ',' := by
  rcases foldAscii_cases c with h | ⟨i, rfl⟩
  · rw [h]
  · exact (foldAscii_capital i).2.2

theorem isBlank_of_mem_nil : ∀ c ∈ ([] : List Char), isBlank c = true := by simp

theorem comma_not_mem_of_blank {cs : List Char} (h : ∀ c ∈ cs, isBlank c = true) : ',' ∉ cs :=
  fun hcomma => absurd (h ',' hcomma) (by decide)

/-! ## Names -/

/-- Folding a text folds its names. -/
theorem names_map_foldAscii (text : List Char) :
    names (text.map foldAscii) = (names text).map (List.map foldAscii) := by
  have hempty : ((fun name : List Char => !name.isEmpty) ∘ List.map foldAscii) =
      fun name => !name.isEmpty := by
    funext name
    cases name <;> rfl
  have htrim : trim ∘ List.map foldAscii = List.map foldAscii ∘ trim :=
    funext (Text.trim_map isBlank_foldAscii)
  rw [names, names, Text.fields_map foldAscii_eq_comma_iff, List.map_map, htrim, ← List.map_map,
    List.filter_map, hempty]

theorem names_append (s t : List Char) : names (s ++ ',' :: t) = names s ++ names t := by
  rw [names, Text.fields_append, List.map_append, List.filter_append, names, names]

theorem names_intercalate (texts : List (List Char)) :
    names ([','].intercalate texts) = texts.flatMap names := by
  induction texts with
  | nil => rfl
  | cons text texts ih =>
    cases texts with
    | nil => simp
    | cons text' texts =>
      rw [List.intercalate_cons_cons, List.append_assoc, List.singleton_append, names_append, ih]
      rfl

theorem names_blank_append {front : List Char} (h : ∀ c ∈ front, isBlank c = true)
    (text : List Char) : names (front ++ text) = names text := by
  obtain ⟨first, rest, htext, hfields⟩ := Text.fields_clean_append (comma_not_mem_of_blank h) text
  have htrim : trim (front ++ first) = trim first := by
    simpa using Text.trim_pad h isBlank_of_mem_nil first
  rw [names, names, hfields, htext, List.map_cons, List.map_cons, htrim]

theorem names_append_blank {back : List Char} (h : ∀ c ∈ back, isBlank c = true)
    (text : List Char) : names (text ++ back) = names text := by
  obtain ⟨init, last, htext, hfields⟩ := Text.fields_append_clean (comma_not_mem_of_blank h) text
  have htrim : trim (last ++ back) = trim last := by
    simpa using Text.trim_pad isBlank_of_mem_nil h last
  rw [names, names, hfields, htext, List.map_append, List.map_append, List.map_singleton,
    List.map_singleton, htrim]

/-- Blanks around a text add no name. -/
theorem names_pad {front back : List Char} (hfront : ∀ c ∈ front, isBlank c = true)
    (hback : ∀ c ∈ back, isBlank c = true) (text : List Char) :
    names (front ++ text ++ back) = names text := by
  rw [names_append_blank hback, names_blank_append hfront]

theorem names_eq_nil_iff {text : List Char} :
    names text = [] ↔ ∀ part ∈ fields ',' text, ∀ c ∈ part, isBlank c = true := by
  simp only [names, List.filter_eq_nil_iff, List.mem_map, forall_exists_index, and_imp,
    forall_apply_eq_imp_iff₂, Bool.not_eq_true', Bool.not_eq_false, List.isEmpty_iff,
    Text.trim_eq_nil_iff]

/-- A text without commas whose characters are all blanks has no names. -/
theorem names_of_blank {text : List Char} (h : ∀ c ∈ text, isBlank c = true) : names text = [] := by
  rw [← List.append_nil text, names_blank_append h]
  rfl

end FourLane.Dialect
