import FourLane.Proofs.Dialect.Grammar

/-!
# Error texts are unambiguous

Both texts of an error show its argument in a frame of words that depends on the form of the error
alone. The words in front of one argument never start like those in front of another, so a text tells
the form of its error (`eq_of_around`); then the frame can be taken off, and a decimal numeral or a
quoted name tells the argument. A name is also read back without knowing the frame: it is the first
quoted text (`nameIn?_of_around`).
-/

namespace FourLane

/-! ## Arguments -/

namespace Text

theorem decimal_injective : Function.Injective decimal := by
  intro m n h
  rw [← Nat.ofDigitChars_ten_toDigits (n := m), ← Nat.ofDigitChars_ten_toDigits (n := n)]
  exact congrArg (Nat.ofDigitChars 10 · 0) h

theorem quote_injective : Function.Injective quote := by
  intro cs cs' h
  have hread := readQuoted?_quote cs []
  rw [h, readQuoted?_quote] at hread
  exact (Prod.mk.inj (Option.some.inj hread)).1.symm

end Text

namespace Error

/-- What an error is about, without its argument. -/
inductive Form where
  | laneOutOfRange | laneCount | byteCount | unknownName | presetCombined
  deriving DecidableEq, Repr

/-- The form of an error: all of it but the argument. -/
def form : Error → Form
  | laneOutOfRange _ => .laneOutOfRange
  | laneCount _ => .laneCount
  | byteCount _ => .byteCount
  | unknownName _ => .unknownName
  | presetCombined _ => .presetCombined

/-- The argument of an error as both texts show it. -/
def shown : Error → List Char
  | laneOutOfRange n | laneCount n | byteCount n => Text.decimal n
  | unknownName name | presetCombined name => Text.quote name.toList

/-- An error is its form and its argument. -/
theorem eq_of_form_of_shown {e e' : Error} (hform : e.form = e'.form) (hshown : e.shown = e'.shown) :
    e = e' := by
  cases e with
  | laneOutOfRange index =>
    cases e' with
    | laneOutOfRange index' => rw [Text.decimal_injective hshown]
    | _ => cases hform
  | laneCount count =>
    cases e' with
    | laneCount count' => rw [Text.decimal_injective hshown]
    | _ => cases hform
  | byteCount count =>
    cases e' with
    | byteCount count' => rw [Text.decimal_injective hshown]
    | _ => cases hform
  | unknownName name =>
    cases e' with
    | unknownName name' => rw [String.toList_injective (Text.quote_injective hshown)]
    | _ => cases hform
  | presetCombined name =>
    cases e' with
    | presetCombined name' => rw [String.toList_injective (Text.quote_injective hshown)]
    | _ => cases hform

/-! ## Frames -/

/-- The words before and after an argument. -/
structure Frame where
  before : String
  after : String

/-- The text of a frame with an argument in it. -/
def Frame.around (f : Frame) (argument : List Char) : List Char :=
  f.before.toList ++ (argument ++ f.after.toList)

/-- The frame of the message of each form. -/
def messageFrame : Form → Frame
  | .laneOutOfRange => ⟨"register lane index ", " out of range (expected 0..=3)"⟩
  | .laneCount => ⟨"register requires exactly 4 lanes, got ", ""⟩
  | .byteCount => ⟨"register requires exactly 16 bytes, got ", ""⟩
  | .unknownName => ⟨"unknown ALU quirk ", ""⟩
  | .presetCombined => ⟨"ALU quirk preset ", " cannot be combined with other names"⟩

/-- The frame of the debug text of each form. -/
def debugFrame : Form → Frame
  | .laneOutOfRange => ⟨"InvalidLane(", ")"⟩
  | .laneCount => ⟨"LaneCount \x7b len: ", " \x7d"⟩
  | .byteCount => ⟨"ByteLength \x7b len: ", " \x7d"⟩
  | .unknownName => ⟨"UnknownQuirk(", ")"⟩
  | .presetCombined => ⟨"QuirkPresetCombined(", ")"⟩

theorem toList_message (e : Error) : e.message.toList = (messageFrame e.form).around e.shown := by
  cases e <;> unfold message <;> simp only [number, quoted, messageFrame, form, shown, Frame.around,
    String.toList_append, String.toList_ofList, String.toList_empty, List.append_assoc, List.append_nil]

theorem toList_debug (e : Error) : e.debug.toList = (debugFrame e.form).around e.shown := by
  cases e <;> simp [debug, kind, argument, number, quoted, debugFrame, form, shown, Frame.around]

/-- No message begins as a message of another form does, before its argument. -/
theorem messageFrame_free (k k' : Form) :
    (messageFrame k).before.toList <+: (messageFrame k').before.toList → k = k' := by
  cases k <;> cases k' <;> decide

theorem debugFrame_free (k k' : Form) :
    (debugFrame k).before.toList <+: (debugFrame k').before.toList → k = k' := by
  cases k <;> cases k' <;> decide

/-- Where no frame starts like another, the framed argument tells the error. -/
theorem eq_of_around {frame : Form → Frame}
    (hfree : ∀ k k', (frame k).before.toList <+: (frame k').before.toList → k = k') {e e' : Error}
    (h : (frame e.form).around e.shown = (frame e'.form).around e'.shown) : e = e' := by
  have hform : e.form = e'.form := by
    have hbefore : (frame e.form).before.toList <+: (frame e'.form).around e'.shown :=
      h ▸ List.prefix_append _ _
    have hbefore' : (frame e'.form).before.toList <+: (frame e'.form).around e'.shown :=
      List.prefix_append _ _
    rcases List.prefix_or_prefix_of_prefix hbefore hbefore' with hprefix | hprefix
    · exact hfree _ _ hprefix
    · exact (hfree _ _ hprefix).symm
  refine eq_of_form_of_shown hform ?_
  rw [Frame.around, Frame.around, hform] at h
  exact (List.append_left_inj _).1 ((List.append_right_inj _).1 h)

theorem message_injective : Function.Injective message := by
  intro e e' h
  have htexts := congrArg String.toList h
  rw [toList_message, toList_message] at htexts
  exact eq_of_around messageFrame_free htexts

theorem debug_injective : Function.Injective debug := by
  intro e e' h
  have htexts := congrArg String.toList h
  rw [toList_debug, toList_debug] at htexts
  exact eq_of_around debugFrame_free htexts

/-! ## Names -/

/-- The first quoted text in a text, with its escapes undone. -/
def nameIn? (text : String) : Option String :=
  (Text.readQuoted? (text.toList.dropWhile (· != '"'))).map fun (name, _) => String.ofList name

/-- The quoted name is the first thing in quotes if the frame has none before it. -/
theorem nameIn?_of_around {f : Frame} (hf : f.before.toList.all (· != '"') = true)
    {text name : String} (h : text.toList = f.around (Text.quote name.toList)) :
    nameIn? text = some name := by
  have hquote : (Text.quote name.toList ++ f.after.toList).dropWhile (· != '"') =
      Text.quote name.toList ++ f.after.toList :=
    List.dropWhile_cons_of_neg (by decide)
  rw [nameIn?, h, Frame.around, List.dropWhile_append_of_pos (List.all_eq_true.1 hf), hquote, Text.readQuoted?_quote]
  simp

theorem quote_not_mem_messageFrame (k : Form) :
    (messageFrame k).before.toList.all (· != '"') = true := by
  cases k <;> decide

theorem quote_not_mem_debugFrame (k : Form) :
    (debugFrame k).before.toList.all (· != '"') = true := by
  cases k <;> decide

theorem nameIn?_texts {e : Error} {name : String} (h : e.shown = Text.quote name.toList) :
    nameIn? e.message = some name ∧ nameIn? e.debug = some name := by
  constructor
  · exact nameIn?_of_around (quote_not_mem_messageFrame e.form) (h ▸ toList_message e)
  · exact nameIn?_of_around (quote_not_mem_debugFrame e.form) (h ▸ toList_debug e)

/-- A name as it stands in a text between commas and blanks. -/
structure StandsIn (name text : List Char) : Prop where
  nonempty : name ≠ []
  piece : name <:+: text
  comma : ',' ∉ name
  head : ∀ c ∈ name.head?, Text.isBlank c = false
  last : ∀ c ∈ name.getLast?, Text.isBlank c = false

/-- The names of a text stand in it as they are. -/
theorem standsIn_of_mem_names {name text : List Char} (h : name ∈ Dialect.names text) :
    StandsIn name text := by
  rw [Dialect.names, List.mem_filter, List.mem_map] at h
  obtain ⟨⟨part, hpart, rfl⟩, hnonempty⟩ := h
  have hcut : Text.Cut ',' text (Text.fields ',' text) := Text.cut_iff.2 rfl
  have htrim := Text.trimmed_trim part
  refine ⟨?_, htrim.isInfix.trans (hcut.isInfix part hpart), ?_, htrim.head, htrim.last⟩
  · intro hempty
    simp [hempty] at hnonempty
  · exact fun hcomma => hcut.clean part hpart (htrim.isInfix.subset hcomma)

/-- An error in a text is about one of its names. -/
theorem exists_name_of_parse_error {text : String} {e : Error} (h : Dialect.parse text = .error e) :
    ∃ name, StandsIn name text.toList ∧
      (e = .unknownName (String.ofList name) ∨ e = .presetCombined (String.ofList name)) := by
  have hmem : ∀ {before name after}, Dialect.names text.toList = before ++ name :: after →
      StandsIn name text.toList := by
    intro before name after hnames
    apply standsIn_of_mem_names
    simp [hnames]
  generalize hnames : Dialect.names text.toList = names at hmem
  rw [Dialect.parse, hnames, Dialect.ofNames_eq_iff] at h
  cases h with
  | combined => exact ⟨_, hmem rfl, .inr rfl⟩
  | unknown => exact ⟨_, hmem rfl, .inl rfl⟩

theorem shown_of_named {e : Error} {name : String}
    (h : e = .unknownName name ∨ e = .presetCombined name) : e.shown = Text.quote name.toList := by
  rcases h with rfl | rfl <;> rfl

/-- Different errors have different messages and different debug texts, and from either text of an
error about a name the name is read back. The name for which a text is refused as a dialect is a
piece of that text, between commas and without blanks at its ends. -/
theorem error_texts_unambiguous :
    (∀ e e' : Error, e ≠ e' → e.message ≠ e'.message ∧ e.debug ≠ e'.debug) ∧
    (∀ (e : Error) (name : String), e = .unknownName name ∨ e = .presetCombined name →
      nameIn? e.message = some name ∧ nameIn? e.debug = some name) ∧
    ∀ (text : String) (e : Error), Dialect.parse text = .error e →
      ∃ name, nameIn? e.message = some (String.ofList name) ∧
        nameIn? e.debug = some (String.ofList name) ∧ StandsIn name text.toList := by
  refine ⟨fun e e' hne => ⟨message_injective.ne hne, debug_injective.ne hne⟩,
    fun e name h => nameIn?_texts (shown_of_named h), fun text e h => ?_⟩
  obtain ⟨name, hstands, he⟩ := exists_name_of_parse_error h
  obtain ⟨hmessage, hdebug⟩ := nameIn?_texts (shown_of_named he)
  exact ⟨name, hmessage, hdebug, hstands⟩

end Error

end FourLane
