import FourLane.Report

/-!
# Naming a dialect

A text names a dialect by a list of switches between commas, or by one preset alone. Names are
trimmed and folded in ASCII, and empty names are left out. The first name that is no switch decides
what is wrong with a list.
-/

namespace FourLane

/-- A dialect with a name of its own. -/
inductive Preset where
  | plain | standard | reference
  deriving DecidableEq, Repr

/-- The name of a switch in a list. -/
def Switch.keyword : Switch → String
  | factorFromLaneX => "mad-src1-lane-x"
  | xorIsOr => "xor-is-or"

namespace Preset

/-- Every preset. -/
def all : List Preset := [plain, standard, reference]

/-- The name of a preset. -/
def keyword : Preset → String
  | plain => "none"
  | standard => "default"
  | reference => "reference"

/-- The dialect that a preset names. -/
def toDialect : Preset → Dialect
  | plain => .plain
  | standard => .standard
  | reference => .reference

end Preset

namespace Dialect

/-- Whether a name is a keyword, in capital or small ASCII letters. -/
def matchesKeyword (name : List Char) (keyword : String) : Bool :=
  name.map Char.toLower = keyword.toList

/-- The switch that a name means. -/
def switch? (name : List Char) : Option Switch :=
  Switch.all.find? fun s => matchesKeyword name s.keyword

/-- The preset that a name means. -/
def preset? (name : List Char) : Option Preset :=
  Preset.all.find? fun p => matchesKeyword name p.keyword

/-- The names in a text: what stands between commas, trimmed, unless nothing does. -/
def names (text : List Char) : List (List Char) :=
  ((Text.fields ',' text).map Text.trim).filter fun name => !name.isEmpty

/-- What is wrong with a name that is no switch, in a list. -/
def refusal (name : List Char) : Error :=
  if (preset? name).isSome then .presetCombined (String.ofList name)
  else .unknownName (String.ofList name)

/-- The dialect of a list of switches. -/
def ofSwitches : List (List Char) → Except Error Dialect
  | [] => .ok plain
  | name :: rest =>
    match switch? name with
    | some s => (ofSwitches rest).map (union s.toDialect)
    | none => .error (refusal name)

/-- The dialect of a list of names: one preset or any number of switches. -/
def ofNames : List (List Char) → Except Error Dialect
  -- A preset counts only where no other name stands beside it.
  | [name] =>
    match preset? name with
    | some p => .ok p.toDialect
    | none => ofSwitches [name]
  | names => ofSwitches names

/-- The dialect that a text names. -/
def parse (text : String) : Except Error Dialect := ofNames (names text.toList)

/-! ## Given by bits or by a text -/

/-- A dialect as it is given from outside. -/
inductive Source where
  | bits (bits : Word)
  | text (text : String)
  deriving DecidableEq, Repr

namespace Source

/-- The dialect of a source; bits are taken as they are. -/
def read : Source → Except Error Dialect
  | bits b => .ok ⟨b⟩
  | text t => parse t

/-- The event of reading a source; a text that names no dialect causes none. -/
def events : Source → List Event
  | bits _ => []
  | text t =>
    match parse t with
    | .ok d => [.dialectRead d t]
    | .error _ => []

end Source

end Dialect

end FourLane
