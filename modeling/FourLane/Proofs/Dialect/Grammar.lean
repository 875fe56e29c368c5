import FourLane.Dialect.Names
import FourLane.Proofs.Text.Fields
import Mathlib.Data.List.Forall2
import Mathlib.Logic.Function.Basic

/-!
# The grammar of dialect texts

`NamesIn` says which names a text holds and `Denotes` what a list of names means: a union of flags,
one preset, or an error that the first name decides that is no flag. Neither mentions a step of the
reading. `ofNames_eq_iff` shows that the library computes `Denotes`, `read_text_iff` that reading a
text is `NamesIn` followed by `Denotes`.
-/

namespace FourLane.Dialect

/-! ## Names -/

/-- Capital ASCII letters become small; no other character changes. -/
def foldAscii (c : Char) : Char :=
  if 65 ≤ c.toNat ∧ c.toNat ≤ 90 then Char.ofNat (c.toNat + 32) else c

/-- A name is a keyword, in letters of either case. -/
def Spells (name : List Char) (keyword : String) : Prop := name.map foldAscii = keyword.toList

/-- The name of a flag, with the flag's bit. -/
inductive FlagName (name : List Char) : Word → Prop
  | laneX (h : Spells name "mad-src1-lane-x") : FlagName name 1
  | xorIsOr (h : Spells name "xor-is-or") : FlagName name 2

/-- The name of a preset, with the preset's bits. -/
inductive PresetName (name : List Char) : Word → Prop
  | none (h : Spells name "none") : PresetName name 0
  | default (h : Spells name "default") : PresetName name 2
  | reference (h : Spells name "reference") : PresetName name 3

/-- A name is the name of a flag. -/
def IsFlag (name : List Char) : Prop := ∃ bit, FlagName name bit

/-- A name is the name of a preset. -/
def IsPreset (name : List Char) : Prop := ∃ bits, PresetName name bits

/-- The names in a text: the trimmed parts between commas, without the empty ones. -/
def NamesIn (text : List Char) (names : List (List Char)) : Prop :=
  ∃ parts cores, Text.Cut ',' text parts ∧ List.Forall₂ Text.Trimmed parts cores ∧
    names = cores.filter (· ≠ [])

/-- What a list of names means. -/
inductive Denotes : List (List Char) → Except Error Dialect → Prop
  /-- Flags: the union of their bits. -/
  | flags {names bits} (h : List.Forall₂ FlagName names bits) :
      Denotes names (.ok ⟨bits.foldr (· ||| ·) 0⟩)
  /-- A preset on its own. -/
  | preset {name bits} (h : PresetName name bits) : Denotes [name] (.ok ⟨bits⟩)
  /-- The first name that is no flag is a preset, and not the only name. -/
  | combined {before name after} (hbefore : ∀ m ∈ before, IsFlag m) (hname : ¬ IsFlag name)
      (hpreset : IsPreset name) (hother : before ++ after ≠ []) :
      Denotes (before ++ name :: after) (.error (.presetCombined (String.ofList name)))
  /-- The first name that is no flag is no preset either. -/
  | unknown {before name after} (hbefore : ∀ m ∈ before, IsFlag m) (hname : ¬ IsFlag name)
      (hpreset : ¬ IsPreset name) :
      Denotes (before ++ name :: after) (.error (.unknownName (String.ofList name)))

theorem forall₂_trimmed_iff {parts cores : List (List Char)} :
    List.Forall₂ Text.Trimmed parts cores ↔ cores = parts.map Text.trim := by
  induction parts generalizing cores with
  | nil => simp
  | cons part parts ih =>
    cases cores with
    | nil => simp
    | cons core cores => simp [Text.trimmed_iff, ih]

/-- A text holds the names that the library reads, and no others. -/
theorem namesIn_iff {text : List Char} {found : List (List Char)} :
    NamesIn text found ↔ found = names text := by
  have hempty : (fun name : List Char => decide (name ≠ [])) = fun name => !name.isEmpty := by
    funext name
    cases name <;> rfl
  simp only [NamesIn, names, Text.cut_iff, forall₂_trimmed_iff, hempty]
  constructor
  · rintro ⟨parts, cores, rfl, rfl, rfl⟩
    rfl
  · rintro rfl
    exact ⟨_, _, rfl, rfl, rfl⟩

/-! ## Keywords -/

theorem toLower_eq_foldAscii (c : Char) : c.toLower = foldAscii c := by
  have hcapital : (c.val ≥ 'A'.val ∧ c.val ≤ 'Z'.val) ↔ 65 ≤ c.toNat ∧ c.toNat ≤ 90 := by
    simp only [ge_iff_le, UInt32.le_iff_toNat_le]
    rfl
  unfold foldAscii
  by_cases h : 65 ≤ c.toNat ∧ c.toNat ≤ 90
  · have hsmall : c.toLower.toNat = c.toNat + 32 := by
      rw [show c.toLower = _ from dif_pos (hcapital.2 h)]
      change (c.toNat + 32) % 2 ^ 32 = _
      exact Nat.mod_eq_of_lt (by omega)
    rw [if_pos h, ← hsmall, Char.ofNat_toNat]
  · rw [if_neg h]
    exact dif_neg (mt hcapital.1 h)

theorem matchesKeyword_iff {name : List Char} {keyword : String} :
    matchesKeyword name keyword = true ↔ Spells name keyword := by
  rw [matchesKeyword, funext toLower_eq_foldAscii, decide_eq_true_iff, Spells]

/-- A name spells one keyword at most. -/
theorem Spells.unique {name : List Char} {k k' : String} (h : Spells name k) (h' : Spells name k') :
    k = k' :=
  String.toList_injective (h.symm.trans h')

/-- Where keywords are different, the first match is the only one. -/
theorem find?_matchesKeyword {α : Type} {all : List α} {keyword : α → String}
    (hall : ∀ a, a ∈ all) (hinj : Function.Injective keyword) (name : List Char) (a : α) :
    all.find? (fun a => matchesKeyword name (keyword a)) = some a ↔ Spells name (keyword a) := by
  constructor
  · intro h
    have hmatch := List.find?_some h
    exact matchesKeyword_iff.1 hmatch
  · intro h
    cases hfind : all.find? (fun a => matchesKeyword name (keyword a)) with
    | none => exact absurd (matchesKeyword_iff.2 h) (List.find?_eq_none.1 hfind a (hall a))
    | some b =>
      have hmatch := List.find?_some hfind
      rw [hinj ((matchesKeyword_iff.1 hmatch).unique h)]

theorem switch?_eq_some_iff {name : List Char} {s : Switch} :
    switch? name = some s ↔ Spells name s.keyword := by
  refine find?_matchesKeyword (fun s => ?_) (fun s t h => ?_) name s
  · cases s <;> decide
  · cases s <;> cases t <;> first | rfl | exact absurd h (by decide)

theorem preset?_eq_some_iff {name : List Char} {p : Preset} :
    preset? name = some p ↔ Spells name p.keyword := by
  refine find?_matchesKeyword (fun p => ?_) (fun p q h => ?_) name p
  · cases p <;> decide
  · cases p <;> cases q <;> first | rfl | exact absurd h (by decide)

theorem flagName_iff {name : List Char} {bit : Word} :
    FlagName name bit ↔ ∃ s, switch? name = some s ∧ s.mask = bit := by
  simp only [switch?_eq_some_iff]
  constructor
  · rintro (h | h)
    · exact ⟨.factorFromLaneX, h, rfl⟩
    · exact ⟨.xorIsOr, h, rfl⟩
  · rintro ⟨s, h, rfl⟩
    cases s with
    | factorFromLaneX => exact .laneX h
    | xorIsOr => exact .xorIsOr h

/-- The presets of the grammar are those of the library. -/
theorem presetName_iff {name : List Char} {bits : Word} :
    PresetName name bits ↔ ∃ p, preset? name = some p ∧ p.toDialect = ⟨bits⟩ := by
  simp only [preset?_eq_some_iff]
  constructor
  · rintro (h | h | h)
    · exact ⟨.plain, h, rfl⟩
    · exact ⟨.standard, h, rfl⟩
    · exact ⟨.reference, h, rfl⟩
  · rintro ⟨p, h, hbits⟩
    cases p with
    | plain => cases hbits; exact .none h
    | standard => cases hbits; exact .default h
    | reference => cases hbits; exact .reference h

theorem isFlag_iff {name : List Char} : IsFlag name ↔ ∃ s, switch? name = some s := by
  simp [IsFlag, flagName_iff]

theorem not_isFlag_iff {name : List Char} : ¬ IsFlag name ↔ switch? name = none := by
  rw [isFlag_iff, Option.eq_none_iff_forall_ne_some, not_exists]

theorem isPreset_iff {name : List Char} : IsPreset name ↔ (preset? name).isSome = true := by
  rw [Option.isSome_iff_exists]
  constructor
  · rintro ⟨bits, h⟩
    obtain ⟨p, hp, -⟩ := presetName_iff.1 h
    exact ⟨p, hp⟩
  · rintro ⟨p, hp⟩
    exact ⟨p.toDialect.bits, presetName_iff.2 ⟨p, hp, rfl⟩⟩

/-- Whether a name is a flag or a preset can be evaluated, as the reading does. -/
instance (name : List Char) : Decidable (IsFlag name) :=
  decidable_of_iff ((switch? name).isSome = true) (by rw [isFlag_iff, Option.isSome_iff_exists])

instance (name : List Char) : Decidable (IsPreset name) := decidable_of_iff _ isPreset_iff.symm

theorem not_isFlag_of_isPreset {name : List Char} (h : IsPreset name) : ¬ IsFlag name := by
  intro hflag
  obtain ⟨p, hp⟩ := Option.isSome_iff_exists.1 (isPreset_iff.1 h)
  obtain ⟨s, hs⟩ := isFlag_iff.1 hflag
  have hkey := (preset?_eq_some_iff.1 hp).unique (switch?_eq_some_iff.1 hs)
  cases p <;> cases s <;> exact absurd hkey (by decide)

/-! ## Lists of names -/

/-- Either every name is a flag, or one is the first that is not. -/
theorem all_flags_or_first (names : List (List Char)) :
    (∃ bits, List.Forall₂ FlagName names bits) ∨
      ∃ before name after, names = before ++ name :: after ∧ (∀ m ∈ before, IsFlag m) ∧
        ¬ IsFlag name := by
  induction names with
  | nil => exact .inl ⟨[], .nil⟩
  | cons m names ih =>
    by_cases hm : IsFlag m
    · obtain ⟨bit, hbit⟩ := hm
      rcases ih with ⟨bits, hbits⟩ | ⟨before, name, after, rfl, hbefore, hname⟩
      · exact .inl ⟨bit :: bits, .cons hbit hbits⟩
      · exact .inr ⟨m :: before, name, after, rfl, by simpa using ⟨⟨bit, hbit⟩, hbefore⟩, hname⟩
    · exact .inr ⟨[], m, names, rfl, by simp, hm⟩

theorem isFlag_of_forall₂ {names : List (List Char)} {bits : List Word}
    (h : List.Forall₂ FlagName names bits) : ∀ name ∈ names, IsFlag name := by
  induction h with
  | nil => simp
  | cons hbit _ ih =>
    intro name hname
    rcases List.mem_cons.1 hname with rfl | hname
    · exact ⟨_, hbit⟩
    · exact ih name hname

theorem exists_denotes (names : List (List Char)) : ∃ r, Denotes names r := by
  rcases all_flags_or_first names with ⟨bits, hbits⟩ | ⟨before, name, after, rfl, hbefore, hname⟩
  · exact ⟨_, .flags hbits⟩
  · by_cases hpreset : IsPreset name
    · by_cases hother : before ++ after = []
      · obtain ⟨rfl, rfl⟩ := List.append_eq_nil_iff.1 hother
        obtain ⟨bits, hbits⟩ := hpreset
        exact ⟨_, .preset hbits⟩
      · exact ⟨_, .combined hbefore hname hpreset hother⟩
    · exact ⟨_, .unknown hbefore hname hpreset⟩

theorem ofSwitches_of_flags {names : List (List Char)} {bits : List Word}
    (h : List.Forall₂ FlagName names bits) : ofSwitches names = .ok ⟨bits.foldr (· ||| ·) 0⟩ := by
  induction h with
  | nil => rfl
  | cons hbit _ ih =>
    obtain ⟨s, hs, rfl⟩ := flagName_iff.1 hbit
    rw [ofSwitches, hs, ih]
    rfl

/-- Behind flags the first name that is no flag decides the error. -/
theorem ofSwitches_of_first {before after : List (List Char)} {name : List Char}
    (hbefore : ∀ m ∈ before, IsFlag m) (hname : ¬ IsFlag name) :
    ofSwitches (before ++ name :: after) = .error (refusal name) := by
  induction before with
  | nil => rw [List.nil_append, ofSwitches, not_isFlag_iff.1 hname]
  | cons m before ih =>
    obtain ⟨s, hs⟩ := isFlag_iff.1 (hbefore m List.mem_cons_self)
    rw [List.cons_append, ofSwitches, hs, ih fun n hn => hbefore n (List.mem_cons_of_mem _ hn)]
    rfl

/-- A list of names is read as a list of flags unless it is one preset. -/
theorem ofNames_eq_ofSwitches {names : List (List Char)} (h : ∀ name, names = [name] → ¬ IsPreset name) :
    ofNames names = ofSwitches names := by
  unfold ofNames
  split
  · rename_i name
    have hnone : preset? name = none := by
      have := h name rfl
      rwa [isPreset_iff, Option.not_isSome_iff_eq_none] at this
    rw [hnone]
  · rfl

theorem refusal_of_isPreset {name : List Char} (h : IsPreset name) :
    refusal name = .presetCombined (String.ofList name) :=
  if_pos (isPreset_iff.1 h)

theorem refusal_of_not_isPreset {name : List Char} (h : ¬ IsPreset name) :
    refusal name = .unknownName (String.ofList name) :=
  if_neg (mt isPreset_iff.2 h)

/-- What a list of names means is what the library answers. -/
theorem ofNames_of_denotes {names : List (List Char)} {r : Except Error Dialect}
    (h : Denotes names r) : ofNames names = r := by
  cases h with
  | flags h =>
    rw [ofNames_eq_ofSwitches, ofSwitches_of_flags h]
    rintro name rfl hpreset
    exact not_isFlag_of_isPreset hpreset (isFlag_of_forall₂ h name List.mem_cons_self)
  | preset h =>
    obtain ⟨p, hp, hbits⟩ := presetName_iff.1 h
    rw [ofNames, hp, ← hbits]
  | combined hbefore hname hpreset hother =>
    rw [ofNames_eq_ofSwitches, ofSwitches_of_first hbefore hname, refusal_of_isPreset hpreset]
    intro name' hone
    -- One name in all: the first that is no flag would stand alone.
    obtain ⟨rfl, hrest⟩ | ⟨-, hrest⟩ := List.append_eq_singleton_iff.1 hone
    · obtain ⟨-, rfl⟩ := List.cons.inj hrest
      exact absurd rfl hother
    · cases hrest
  | unknown hbefore hname hpreset =>
    rw [ofNames_eq_ofSwitches, ofSwitches_of_first hbefore hname, refusal_of_not_isPreset hpreset]
    intro name' hone
    obtain ⟨-, hrest⟩ | ⟨-, hrest⟩ := List.append_eq_singleton_iff.1 hone
    · obtain ⟨rfl, -⟩ := List.cons.inj hrest
      exact hpreset
    · cases hrest

/-- The library computes the meaning of a list of names. -/
theorem ofNames_eq_iff {names : List (List Char)} {r : Except Error Dialect} :
    ofNames names = r ↔ Denotes names r := by
  refine ⟨fun h => ?_, ofNames_of_denotes⟩
  obtain ⟨r', hr'⟩ := exists_denotes names
  rwa [← h, ofNames_of_denotes hr']

/-! ## Reading a text -/

/-- The lists with a dialect are those of flags and those of one preset. -/
theorem denotes_ok_iff {names : List (List Char)} :
    (∃ d, Denotes names (.ok d)) ↔
      (∀ name ∈ names, IsFlag name) ∨ ∃ name, names = [name] ∧ IsPreset name := by
  constructor
  · rintro ⟨d, h⟩
    cases h with
    | flags h =>
      exact .inl (isFlag_of_forall₂ h)
    | preset h => exact .inr ⟨_, rfl, _, h⟩
  · rintro (h | ⟨name, rfl, bits, h⟩)
    · rcases all_flags_or_first names with ⟨bits, hbits⟩ | ⟨before, name, after, rfl, -, hname⟩
      · exact ⟨_, .flags hbits⟩
      · exact absurd (h name (by simp)) hname
    · exact ⟨_, .preset h⟩

theorem events_text (text : String) :
    (Source.text text).events =
      match (Source.text text).read with
      | .ok d => [.dialectRead d text]
      | .error _ => [] :=
  rfl

/-- A text is read by its names alone: it is accepted exactly if all of them are flags or the only
one is a preset, every answer is the one that they denote, and acceptance is reported once, with the
whole text. -/
theorem read_text_iff (text : String) :
    ∃ names, (∀ found, NamesIn text.toList found ↔ found = names) ∧
      (∀ r, (Source.text text).read = r ↔ Denotes names r) ∧
      ((∃ d, (Source.text text).read = .ok d) ↔
        (∀ name ∈ names, IsFlag name) ∨ ∃ name, names = [name] ∧ IsPreset name) ∧
      (∀ d, (Source.text text).read = .ok d → (Source.text text).events = [.dialectRead d text]) ∧
      (∀ e, (Source.text text).read = .error e → (Source.text text).events = []) ∧
      ∀ d, (Event.dialectRead d text).level = .debug := by
  have hread : ∀ r, (Source.text text).read = r ↔ Denotes (names text.toList) r :=
    fun r => ofNames_eq_iff
  refine ⟨names text.toList, fun found => namesIn_iff, hread, ?_, fun d h => ?_, fun e h => ?_,
    fun d => rfl⟩
  · simp only [hread]
    exact denotes_ok_iff
  · rw [events_text, h]
  · rw [events_text, h]

end FourLane.Dialect
