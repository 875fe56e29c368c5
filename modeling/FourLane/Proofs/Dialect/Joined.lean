import FourLane.Proofs.Dialect.Names
import Mathlib.Logic.Relation

/-!
# Texts joined by commas

What `s,t` is read as follows from what `s` and `t` are read as, since the names of `s,t` are those
of `s` and then those of `t`: an error in `s` stays, flags in `s` are united with flags in `t` and
leave errors in `t` as they are, and a preset on either side suffers no other name on the other.

Which dialect a text names, if any, depends on the set of its folded names and on whether a preset
stands alone (`denotes_ok_congr`). So a list of parts can be reordered, flags repeated, letters
folded, and blanks and blank parts put in, without changing it (`Change`).
-/

namespace FourLane.Dialect

/-! ## One list of names after another -/

section Append

variable {names more : List (List Char)} {e : Error}

/-- The first name that is no flag stays the first, whatever follows. -/
theorem Denotes.append_of_error (h : Denotes names (.error e)) : Denotes (names ++ more) (.error e) := by
  cases h with
  | combined hbefore hname hpreset hother =>
    rw [List.append_assoc, List.cons_append]
    refine .combined hbefore hname hpreset fun hnil => hother ?_
    rw [← List.append_assoc] at hnil
    exact (List.append_eq_nil_iff.1 hnil).1
  | unknown hbefore hname hpreset =>
    rw [List.append_assoc, List.cons_append]
    exact .unknown hbefore hname hpreset

/-- Flags in front of a list leave its first wrong name the first. -/
theorem Denotes.flags_append_error (hflags : ∀ m ∈ names, IsFlag m) (h : Denotes more (.error e)) :
    Denotes (names ++ more) (.error e) := by
  have hall : ∀ before, (∀ m ∈ before, IsFlag m) → ∀ m ∈ names ++ before, IsFlag m :=
    fun before hbefore m hm => (List.mem_append.1 hm).elim (hflags m) (hbefore m)
  cases h with
  | combined hbefore hname hpreset hother =>
    rw [← List.append_assoc]
    refine .combined (hall _ hbefore) hname hpreset fun hnil => hother ?_
    rw [List.append_assoc] at hnil
    exact (List.append_eq_nil_iff.1 hnil).2
  | unknown hbefore hname hpreset =>
    rw [← List.append_assoc]
    exact .unknown (hall _ hbefore) hname hpreset

theorem Denotes.flags_append_preset (hflags : ∀ m ∈ names, IsFlag m) (hnames : names ≠ [])
    {name : List Char} (hpreset : IsPreset name) :
    Denotes (names ++ [name]) (.error (.presetCombined (String.ofList name))) :=
  .combined hflags (not_isFlag_of_isPreset hpreset) hpreset (by simpa using hnames)

theorem Denotes.preset_append {name : List Char} (hpreset : IsPreset name) (hmore : more ≠ []) :
    Denotes (name :: more) (.error (.presetCombined (String.ofList name))) :=
  have hbefore : ∀ m ∈ ([] : List (List Char)), IsFlag m := by simp
  .combined hbefore (not_isFlag_of_isPreset hpreset) hpreset hmore

theorem foldr_or_append (bits bits' : List Word) :
    (bits ++ bits').foldr (· ||| ·) 0 = bits.foldr (· ||| ·) 0 ||| bits'.foldr (· ||| ·) 0 := by
  induction bits with
  | nil => exact BitVec.zero_or.symm
  | cons bit bits ih => rw [List.cons_append, List.foldr_cons, ih, List.foldr_cons, BitVec.or_assoc]

theorem Denotes.flags_append_flags {bits bits' : List Word} (h : List.Forall₂ FlagName names bits)
    (h' : List.Forall₂ FlagName more bits') :
    Denotes (names ++ more)
      (.ok (union ⟨bits.foldr (· ||| ·) 0⟩ ⟨bits'.foldr (· ||| ·) 0⟩)) := by
  rw [union, ← foldr_or_append]
  exact .flags (List.rel_append h h')

end Append

/-! ## One text after another -/

/-- All parts of a text between commas are blank. -/
def OnlyBlanks (text : String) : Prop :=
  ∀ parts, Text.Cut ',' text.toList parts → ∀ part ∈ parts, ∀ c ∈ part, Text.isBlank c = true

/-- A text holds one name, and this is a preset. -/
def NamesPreset (text name : String) : Prop :=
  NamesIn text.toList [name.toList] ∧ IsPreset name.toList

theorem onlyBlanks_iff {text : String} : OnlyBlanks text ↔ names text.toList = [] := by
  simp only [OnlyBlanks, Text.cut_iff, forall_eq, names_eq_nil_iff]

theorem namesPreset_iff {text name : String} :
    NamesPreset text name ↔ names text.toList = [name.toList] ∧ IsPreset name.toList := by
  rw [NamesPreset, namesIn_iff, eq_comm]

instance (text : String) : Decidable (OnlyBlanks text) := decidable_of_iff _ onlyBlanks_iff.symm

instance (text name : String) : Decidable (NamesPreset text name) :=
  decidable_of_iff _ namesPreset_iff.symm

/-- A text that is one name, and this no preset, names no preset. -/
theorem not_namesPreset_of_name {text : String} (hname : names text.toList = [text.toList])
    (h : ¬ IsPreset text.toList) (name : String) : ¬ NamesPreset text name := by
  intro hpreset
  rw [namesPreset_iff, hname, List.singleton_inj] at hpreset
  exact h (hpreset.1 ▸ hpreset.2)

theorem parse_eq_iff {text : String} {r : Except Error Dialect} :
    parse text = r ↔ Denotes (names text.toList) r :=
  ofNames_eq_iff

/-- A text that is accepted and names no preset is a list of flags. -/
theorem flags_of_parse {text : String} {d : Dialect} (h : parse text = .ok d)
    (hpreset : ∀ name, ¬ NamesPreset text name) :
    ∃ bits, List.Forall₂ FlagName (names text.toList) bits ∧ d = ⟨bits.foldr (· ||| ·) 0⟩ := by
  generalize hnames : names text.toList = found
  rw [parse_eq_iff, hnames] at h
  cases h with
  | flags h => exact ⟨_, h, rfl⟩
  | @preset name bits h =>
    refine absurd (namesPreset_iff.2 ⟨?_, bits, ?_⟩) (hpreset (String.ofList name))
    · rw [hnames, String.toList_ofList]
    · rwa [String.toList_ofList]

section Join

variable {s t : String}

/-- The names of a joined text are those of the first and then those of the second. -/
theorem parse_join_iff {r : Except Error Dialect} :
    parse (s ++ "," ++ t) = r ↔ Denotes (names s.toList ++ names t.toList) r := by
  have htext : (s ++ "," ++ t).toList = s.toList ++ ',' :: t.toList := by simp
  rw [parse_eq_iff, htext, names_append]

theorem parse_join_of_error {e : Error} (h : parse s = .error e) :
    parse (s ++ "," ++ t) = .error e :=
  parse_join_iff.2 (parse_eq_iff.1 h).append_of_error

theorem parse_join_of_blank_right (h : OnlyBlanks t) : parse (s ++ "," ++ t) = parse s := by
  rw [parse_join_iff, onlyBlanks_iff.1 h, List.append_nil]
  exact parse_eq_iff.1 rfl

theorem parse_join_of_blank_left (h : OnlyBlanks s) : parse (s ++ "," ++ t) = parse t := by
  rw [parse_join_iff, onlyBlanks_iff.1 h, List.nil_append]
  exact parse_eq_iff.1 rfl

theorem parse_join_of_preset {name : String} (h : NamesPreset s name) (ht : ¬ OnlyBlanks t) :
    parse (s ++ "," ++ t) = .error (.presetCombined name) := by
  obtain ⟨hs, hpreset⟩ := namesPreset_iff.1 h
  have hboth := Denotes.preset_append hpreset (mt onlyBlanks_iff.2 ht)
  rw [String.ofList_toList] at hboth
  rwa [parse_join_iff, hs, List.singleton_append]

variable {d : Dialect} (hs : parse s = .ok d) (hflags : ∀ name, ¬ NamesPreset s name)

include hs hflags

theorem parse_join_of_flags_error {e : Error} (h : parse t = .error e) :
    parse (s ++ "," ++ t) = .error e := by
  obtain ⟨bits, hbits, -⟩ := flags_of_parse hs hflags
  exact parse_join_iff.2 ((parse_eq_iff.1 h).flags_append_error (isFlag_of_forall₂ hbits))

theorem parse_join_of_flags_preset {name : String} (h : NamesPreset t name) (hsome : ¬ OnlyBlanks s) :
    parse (s ++ "," ++ t) = .error (.presetCombined name) := by
  obtain ⟨bits, hbits, -⟩ := flags_of_parse hs hflags
  obtain ⟨ht, hpreset⟩ := namesPreset_iff.1 h
  have hboth := Denotes.flags_append_preset (isFlag_of_forall₂ hbits) (mt onlyBlanks_iff.2 hsome)
    hpreset
  rw [String.ofList_toList] at hboth
  rwa [parse_join_iff, ht]

theorem parse_join_of_flags {d' : Dialect} (ht : parse t = .ok d')
    (halone : ∀ name, NamesPreset t name → OnlyBlanks s) :
    parse (s ++ "," ++ t) = .ok (d.union d') := by
  obtain ⟨bits, hbits, rfl⟩ := flags_of_parse hs hflags
  by_cases hblank : OnlyBlanks s
  · -- Without names the first text has no bits either.
    rw [parse_join_of_blank_left hblank, ht]
    rw [onlyBlanks_iff.1 hblank] at hbits
    cases hbits
    exact congrArg (fun bits => Except.ok (Dialect.mk bits)) BitVec.zero_or.symm
  · obtain ⟨bits', hbits', rfl⟩ := flags_of_parse ht fun name h => hblank (halone name h)
    exact parse_join_iff.2 (.flags_append_flags hbits hbits')

end Join

/-! ## What matters in a list of names -/

theorem getLsbD_foldr_or (bits : List Word) (i : Nat) :
    (bits.foldr (· ||| ·) 0).getLsbD i = true ↔ ∃ bit ∈ bits, bit.getLsbD i = true := by
  induction bits with
  | nil => simp
  | cons bit bits ih =>
    simp only [List.foldr_cons, BitVec.getLsbD_or, Bool.or_eq_true, ih, List.exists_mem_cons_iff]

theorem FlagName.unique {name : List Char} {bit bit' : Word} (h : FlagName name bit)
    (h' : FlagName name bit') : bit = bit' := by
  obtain ⟨s, hs, rfl⟩ := flagName_iff.1 h
  obtain ⟨s', hs', rfl⟩ := flagName_iff.1 h'
  rw [hs] at hs'
  cases hs'
  rfl

/-- The bits that flags name together are those that one of them names. -/
theorem exists_bit_iff {names : List (List Char)} {bits : List Word}
    (h : List.Forall₂ FlagName names bits) (i : Nat) :
    (bits.foldr (· ||| ·) 0).getLsbD i = true ↔
      ∃ name ∈ names, ∃ bit, FlagName name bit ∧ bit.getLsbD i = true := by
  rw [getLsbD_foldr_or]
  induction h with
  | nil => simp
  | @cons name bit names bits hbit _ ih =>
    rw [List.exists_mem_cons_iff, List.exists_mem_cons_iff, ih]
    refine or_congr_left ⟨fun hi => ⟨bit, hbit, hi⟩, ?_⟩
    rintro ⟨bit', hbit', hi⟩
    rwa [hbit.unique hbit']

/-- A list of names is accepted as flags, with the bits that any of them names, or as one preset. -/
theorem denotes_ok_iff_mem {names : List (List Char)} {d : Dialect} :
    Denotes names (.ok d) ↔
      ((∀ name ∈ names, IsFlag name) ∧ ∀ i, d.bits.getLsbD i = true ↔
        ∃ name ∈ names, ∃ bit, FlagName name bit ∧ bit.getLsbD i = true) ∨
      ∃ name, names = [name] ∧ PresetName name d.bits := by
  constructor
  · intro h
    cases h with
    | flags h => exact .inl ⟨isFlag_of_forall₂ h, exists_bit_iff h⟩
    | preset h => exact .inr ⟨_, rfl, h⟩
  · rintro (⟨hflags, hbits⟩ | ⟨name, rfl, h⟩)
    · rcases all_flags_or_first names with ⟨bits, h⟩ | ⟨before, name, after, rfl, -, hname⟩
      · have hd : d = ⟨bits.foldr (· ||| ·) 0⟩ := by
          refine congrArg Dialect.mk (BitVec.eq_of_getLsbD_eq fun i _ => ?_)
          rw [Bool.eq_iff_iff, hbits, exists_bit_iff h]
        exact hd ▸ .flags h
      · exact absurd (hflags name (by simp)) hname
    · exact .preset h

/-- Lists with the same names, of which one is a single preset only if both are, have the same
dialect. -/
theorem denotes_ok_congr {names names' : List (List Char)}
    (hmem : ∀ name, name ∈ names ↔ name ∈ names')
    (hone : ∀ name, IsPreset name → (names = [name] ↔ names' = [name])) (d : Dialect) :
    Denotes names (.ok d) ↔ Denotes names' (.ok d) := by
  have hpreset : (∃ name, names = [name] ∧ PresetName name d.bits) ↔
      ∃ name, names' = [name] ∧ PresetName name d.bits :=
    exists_congr fun name => and_congr_left fun h => hone name ⟨_, h⟩
  simp only [denotes_ok_iff_mem, hmem, hpreset]

theorem spells_map_foldAscii {name : List Char} {keyword : String} :
    Spells (name.map foldAscii) keyword ↔ Spells name keyword := by
  have hfold : foldAscii ∘ foldAscii = foldAscii := funext foldAscii_foldAscii
  rw [Spells, Spells, List.map_map, hfold]

/-- Folding the names of a list changes no dialect. -/
theorem denotes_map_foldAscii {names : List (List Char)} {d : Dialect} :
    Denotes (names.map (List.map foldAscii)) (.ok d) ↔ Denotes names (.ok d) := by
  have hflag : ∀ name bit, FlagName (List.map foldAscii name) bit ↔ FlagName name bit := by
    intro name bit
    simp only [flagName_iff, switch?_eq_some_iff, spells_map_foldAscii]
  have hpreset : ∀ name bits, PresetName (List.map foldAscii name) bits ↔ PresetName name bits := by
    intro name bits
    simp only [presetName_iff, preset?_eq_some_iff, spells_map_foldAscii]
  have hone : (∃ name, names.map (List.map foldAscii) = [name] ∧ PresetName name d.bits) ↔
      ∃ name, names = [name] ∧ PresetName name d.bits := by
    constructor
    · rintro ⟨_, hmap, h⟩
      obtain ⟨name, rfl, rfl⟩ := List.map_eq_singleton_iff.1 hmap
      exact ⟨name, rfl, (hpreset name _).1 h⟩
    · rintro ⟨name, rfl, h⟩
      exact ⟨_, rfl, (hpreset name _).2 h⟩
  simp only [denotes_ok_iff_mem, IsFlag, List.mem_map, forall_exists_index, and_imp,
    forall_apply_eq_imp_iff₂, exists_exists_and_eq_and, hflag, hone]

/-! ## Changes that keep the dialect -/

/-- A change of a list of parts that matters to no dialect. -/
inductive Change : List String → List String → Prop
  | reordered {parts parts'} (h : parts.Perm parts') : Change parts parts'
  | repeated {before part after name} (hname : NamesIn part.toList [name]) (hflag : IsFlag name) :
      Change (before ++ part :: after) (before ++ part :: part :: after)
  | recased {before part part' after}
      (h : part.toList.map foldAscii = part'.toList.map foldAscii) :
      Change (before ++ part :: after) (before ++ part' :: after)
  | padded {before part part' after} {front back : List Char}
      (hfront : ∀ c ∈ front, Text.isBlank c = true) (hback : ∀ c ∈ back, Text.isBlank c = true)
      (h : part'.toList = front ++ part.toList ++ back) :
      Change (before ++ part :: after) (before ++ part' :: after)
  | blank {before part after} (h : ∀ c ∈ part.toList, Text.isBlank c = true) :
      Change (before ++ after) (before ++ part :: after)

/-- The names of all parts. -/
def namesOf (parts : List String) : List (List Char) := parts.flatMap fun part => names part.toList

theorem names_intercalate_toList (parts : List String) :
    names (",".intercalate parts).toList = namesOf parts := by
  have hcomma : ",".toList = [','] := rfl
  rw [String.toList_intercalate, hcomma, names_intercalate, List.flatMap_map, namesOf]

theorem namesOf_append_cons (before after : List String) (part : String) :
    namesOf (before ++ part :: after) = namesOf before ++ (names part.toList ++ namesOf after) := by
  rw [namesOf, List.flatMap_append, List.flatMap_cons, namesOf, namesOf]

theorem denotes_ok_perm {names names' : List (List Char)} (h : names.Perm names') (d : Dialect) :
    Denotes names (.ok d) ↔ Denotes names' (.ok d) := by
  refine denotes_ok_congr (fun name => h.mem_iff) (fun name _ => ?_) d
  rw [← List.perm_singleton, ← List.perm_singleton]
  exact ⟨h.symm.trans, h.trans⟩

/-- A preset cannot be repeated so: twice, it no longer stands alone. -/
theorem denotes_ok_repeat {before after : List (List Char)} {name : List Char} (h : IsFlag name)
    (d : Dialect) : Denotes (before ++ name :: after) (.ok d) ↔
      Denotes (before ++ name :: name :: after) (.ok d) := by
  refine denotes_ok_congr (fun name' => by simp) (fun preset hpreset => ?_) d
  have hne : name ≠ preset := by
    rintro rfl
    exact not_isFlag_of_isPreset hpreset h
  have halone : ∀ names : List (List Char), name ∈ names → names ≠ [preset] := by
    rintro names hmem rfl
    exact hne (List.mem_singleton.1 hmem)
  exact iff_of_false (halone _ (by simp)) (halone _ (by simp))

theorem denotes_ok_recase {names names' : List (List Char)}
    (h : names.map (List.map foldAscii) = names'.map (List.map foldAscii)) (d : Dialect) :
    Denotes names (.ok d) ↔ Denotes names' (.ok d) := by
  rw [← denotes_map_foldAscii, h, denotes_map_foldAscii]

/-- No change of the parts changes the dialect of their names. -/
theorem Change.denotes_ok {parts parts' : List String} (h : Change parts parts') (d : Dialect) :
    Denotes (namesOf parts) (.ok d) ↔ Denotes (namesOf parts') (.ok d) := by
  cases h with
  | reordered h => exact denotes_ok_perm (h.flatMap_right _) d
  | @repeated before part after name hname hflag =>
    have hpart : names part.toList = [name] := (namesIn_iff.1 hname).symm
    have htail : namesOf (part :: after) = name :: namesOf after := by
      rw [namesOf, List.flatMap_cons, hpart, List.singleton_append, namesOf]
    rw [namesOf_append_cons, namesOf_append_cons, htail, hpart]
    exact denotes_ok_repeat hflag d
  | @recased before part part' after h =>
    refine denotes_ok_recase ?_ d
    rw [namesOf_append_cons, namesOf_append_cons, List.map_append, List.map_append, List.map_append,
      List.map_append, ← names_map_foldAscii, h, names_map_foldAscii]
  | @padded before part part' after front back hfront hback h =>
    rw [namesOf_append_cons, namesOf_append_cons, h, names_pad hfront hback]
  | @blank before part after h =>
    rw [namesOf_append_cons, names_of_blank h, List.nil_append, namesOf, List.flatMap_append]
    rfl

/-- What a text is accepted as, if it is. -/
theorem toOption_parse_congr {s t : String}
    (h : ∀ d, Denotes (names s.toList) (.ok d) ↔ Denotes (names t.toList) (.ok d)) :
    (parse s).toOption = (parse t).toOption := by
  have hsome : ∀ (r : Except Error Dialect) d, r.toOption = some d ↔ r = .ok d := by
    rintro (e | d') d <;> simp [Except.toOption]
  refine Option.ext fun d => ?_
  rw [hsome, hsome, parse_eq_iff, parse_eq_iff, h]

/-- A changed list of parts is accepted as before, if it was. -/
theorem Change.toOption_parse {parts parts' : List String} (h : Change parts parts') :
    (parse (",".intercalate parts)).toOption = (parse (",".intercalate parts')).toOption :=
  toOption_parse_congr fun d => by
    rw [names_intercalate_toList, names_intercalate_toList, h.denotes_ok]

/-- However often and in either direction the parts are changed. -/
theorem toOption_parse_of_changes {parts parts' : List String}
    (h : Relation.EqvGen Change parts parts') :
    (parse (",".intercalate parts)).toOption = (parse (",".intercalate parts')).toOption := by
  induction h with
  | rel _ _ h => exact h.toOption_parse
  | refl _ => rfl
  | symm _ _ _ ih => exact ih.symm
  | trans _ _ _ _ _ ih ih' => exact ih.trans ih'

/-! ## The laws -/

/-- An error on the left stays. A text of blanks adds nothing on either side. Behind flags an error
stays too, a preset is refused beside a name, and anything else is united with them. A preset is
refused before a name. No change of the parts changes what is accepted and as what. -/
theorem parse_join_laws :
    (∀ s t e, parse s = .error e → parse (s ++ "," ++ t) = .error e) ∧
    (∀ s t, OnlyBlanks t → parse (s ++ "," ++ t) = parse s) ∧
    (∀ s t, OnlyBlanks s → parse (s ++ "," ++ t) = parse t) ∧
    (∀ s t d, parse s = .ok d → (∀ name, ¬ NamesPreset s name) →
      (∀ e, parse t = .error e → parse (s ++ "," ++ t) = .error e) ∧
      (∀ name, NamesPreset t name → ¬ OnlyBlanks s →
        parse (s ++ "," ++ t) = .error (.presetCombined name)) ∧
      ∀ d', parse t = .ok d' → (∀ name, NamesPreset t name → OnlyBlanks s) →
        parse (s ++ "," ++ t) = .ok (d.union d')) ∧
    (∀ s t name, NamesPreset s name → ¬ OnlyBlanks t →
      parse (s ++ "," ++ t) = .error (.presetCombined name)) ∧
    ∀ parts parts', Relation.EqvGen Change parts parts' →
      (parse (",".intercalate parts)).toOption = (parse (",".intercalate parts')).toOption := by
  refine ⟨fun s t e => parse_join_of_error, fun s t => parse_join_of_blank_right,
    fun s t => parse_join_of_blank_left, fun s t d hs hflags => ⟨?_, ?_, ?_⟩,
    fun s t name => parse_join_of_preset, fun parts parts' => toOption_parse_of_changes⟩
  · exact fun e => parse_join_of_flags_error hs hflags
  · exact fun name => parse_join_of_flags_preset hs hflags
  · exact fun d' => parse_join_of_flags hs hflags

/-- Texts of an error, of no name, of one flag and of one preset, joined in turn, and a list of two
flags of which one is put last, repeated, written in capitals and set off by blanks. -/
theorem parse_join_laws_for_each_kind :
    parse ("bogus" ++ "," ++ "none") = .error (.unknownName "bogus") ∧
    parse ("XOR-is-or" ++ "," ++ " ,") = parse "XOR-is-or" ∧
    parse (" ," ++ "," ++ "XOR-is-or") = parse "XOR-is-or" ∧
    parse ("XOR-is-or" ++ "," ++ "reference,none") = .error (.presetCombined "reference") ∧
    parse ("XOR-is-or" ++ "," ++ " Default") = .error (.presetCombined "Default") ∧
    parse ("XOR-is-or" ++ "," ++ "mad-src1-lane-x") = .ok .reference ∧
    parse ("none" ++ "," ++ "XOR-is-or") = .error (.presetCombined "none") ∧
    (parse (",".intercalate ["xor-is-or", "mad-src1-lane-x"])).toOption =
      (parse (",".intercalate ["mad-src1-lane-x", "", "XOR-IS-OR", " xor-is-or"])).toOption := by
  obtain ⟨herror, hright, hleft, hflags, hpreset, hchange⟩ := parse_join_laws
  have hxor : ∀ name, ¬ NamesPreset "XOR-is-or" name :=
    not_namesPreset_of_name (by decide) (by decide)
  have hmad : ∀ name, ¬ NamesPreset "mad-src1-lane-x" name :=
    not_namesPreset_of_name (by decide) (by decide)
  have hbehind := fun t => hflags "XOR-is-or" t ⟨2⟩ (by decide) hxor
  -- Five changes, of which that to capitals is taken backward.
  have hparts : Relation.EqvGen Change ["xor-is-or", "mad-src1-lane-x"]
      ["mad-src1-lane-x", "", "XOR-IS-OR", " xor-is-or"] := by
    have hname : NamesIn "xor-is-or".toList ["xor-is-or".toList] := namesIn_iff.2 (by decide)
    have hlast : Relation.EqvGen Change ["xor-is-or", "mad-src1-lane-x"]
        ["mad-src1-lane-x", "xor-is-or"] := .rel _ _ (.reordered (.swap _ _ _))
    have htwice : Relation.EqvGen Change ["mad-src1-lane-x", "xor-is-or"]
        ["mad-src1-lane-x", "xor-is-or", "xor-is-or"] :=
      .rel _ _ (@Change.repeated ["mad-src1-lane-x"] _ [] _ hname (by decide))
    have hcapitals : Relation.EqvGen Change ["mad-src1-lane-x", "XOR-IS-OR", "xor-is-or"]
        ["mad-src1-lane-x", "xor-is-or", "xor-is-or"] :=
      .rel _ _ (@Change.recased ["mad-src1-lane-x"] _ _ _ (by decide))
    have hspace : Relation.EqvGen Change ["mad-src1-lane-x", "XOR-IS-OR", "xor-is-or"]
        ["mad-src1-lane-x", "XOR-IS-OR", " xor-is-or"] :=
      .rel _ _ (@Change.padded ["mad-src1-lane-x", "XOR-IS-OR"] _ _ _ [' '] []
        (List.forall_mem_singleton.2 (by decide)) (List.forall_mem_nil _) (by decide))
    have hnone : Relation.EqvGen Change ["mad-src1-lane-x", "XOR-IS-OR", " xor-is-or"]
        ["mad-src1-lane-x", "", "XOR-IS-OR", " xor-is-or"] :=
      .rel _ _ (@Change.blank ["mad-src1-lane-x"] _ _ (by simp))
    have hnames := hlast.trans _ _ _ htwice
    have hfolded := hnames.trans _ _ _ (hcapitals.symm _ _)
    exact hfolded.trans _ _ _ (hspace.trans _ _ _ hnone)
  refine ⟨herror _ _ _ (by decide), hright _ _ (by decide), hleft _ _ (by decide),
    (hbehind _).1 _ (by decide), (hbehind _).2.1 _ (by decide) (by decide), ?_,
    hpreset _ _ _ (by decide) (by decide), hchange _ _ hparts⟩
  exact (hbehind _).2.2 ⟨1⟩ (by decide) fun name h => absurd h (hmad name)

example : parse "xor-is-or, None" = .error (.presetCombined "None") := by decide

end FourLane.Dialect
