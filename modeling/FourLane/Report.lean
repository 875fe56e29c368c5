import FourLane.Dialect.Basic
import FourLane.Text.Quoted

/-!
# Errors and events

An error is everything that input can do wrong, and how it is told. A message is a sentence for the
reader; the debug text names the kind of the error and shows its argument.

An event is what the library reports while it works: lanes that have no integer of their own and texts
that were read as dialects.
-/

namespace FourLane

/-! ## Errors -/

/-- Why an input is refused. -/
inductive Error where
  | laneOutOfRange (index : Nat)
  | laneCount (count : Nat)
  | byteCount (count : Nat)
  /-- The name is neither a switch nor a preset. -/
  | unknownName (name : String)
  /-- A preset stands beside other names. -/
  | presetCombined (name : String)
  deriving DecidableEq, Repr

namespace Error

/-- A number in a message. -/
def number (n : Nat) : String := String.ofList (Text.decimal n)

/-- A name in a message, quoted so that it cannot run into the words around it. -/
def quoted (name : String) : String := String.ofList (Text.quote name.toList)

/-- What kind of error it is, by name. -/
def kind : Error → String
  | laneOutOfRange _ => "InvalidLane"
  | laneCount _ => "LaneCount"
  | byteCount _ => "ByteLength"
  | unknownName _ => "UnknownQuirk"
  | presetCombined _ => "QuirkPresetCombined"

/-- The sentence for the reader, with the argument inside. -/
def message : Error → String
  | laneOutOfRange index =>
    "register lane index " ++ number index ++ " out of range (expected 0..=3)"
  | laneCount count => "register requires exactly 4 lanes, got " ++ number count
  | byteCount count => "register requires exactly 16 bytes, got " ++ number count
  | unknownName name => "unknown ALU quirk " ++ quoted name
  | presetCombined name =>
    "ALU quirk preset " ++ quoted name ++ " cannot be combined with other names"

/-- The argument of an error as its debug text shows it. -/
def argument : Error → String
  | laneOutOfRange index => "(" ++ number index ++ ")"
  | laneCount count | byteCount count => " \x7b len: " ++ number count ++ " \x7d"
  | unknownName name | presetCombined name => "(" ++ quoted name ++ ")"

/-- The kind of an error and its argument. -/
def debug (e : Error) : String := e.kind ++ e.argument

end Error

/-! ## Events -/

/-- How loud an event is: conversions trace, texts debug. -/
inductive Level where
  | trace | debug
  deriving DecidableEq, Repr

/-- Something worth a line in the log. -/
inductive Event where
  /-- A NaN with these bits was converted to an integer. -/
  | nanToInteger (bits : Word)
  /-- The number with these bits is outside the range of integers. -/
  | clampedToInteger (bits : Word)
  /-- A text was read as a dialect. -/
  | dialectRead (dialect : Dialect) (text : String)
  deriving DecidableEq, Repr

/-- The name of a level as the log shows it. -/
def Level.name : Level → String
  | trace => "TRACE"
  | debug => "DEBUG"

namespace Event

/-- The level at which an event is logged. -/
def level : Event → Level
  | nanToInteger _ | clampedToInteger _ => .trace
  | dialectRead .. => .debug

/-- The fixed text of an event; what it is about is shown beside it. -/
def message : Event → String
  | nanToInteger _ => "NaN float->int conversion produces 0"
  | clampedToInteger _ => "float->int conversion clamped to int32 range"
  | dialectRead .. => "parsed ALU quirks"

end Event

end FourLane
