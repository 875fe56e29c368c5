import FourLane.Word

/-!
# Dialects

Two instructions have a second, historical meaning: multiply-add may take its second factor from
lane `x` alone, and exclusive or may be computed as or. A dialect is the set of the switches that
are on, one bit each. Bits that belong to no switch are kept and change nothing.
-/

namespace FourLane

/-- A departure from the plain meaning of an instruction. -/
inductive Switch where
  /-- Multiply-add takes its second factor from lane `x` for every lane. -/
  | factorFromLaneX
  /-- Exclusive or computes or. -/
  | xorIsOr
  deriving DecidableEq, Repr

/-- A set of switches as a word, one bit each. -/
structure Dialect where
  bits : Word
  deriving DecidableEq, Repr

namespace Switch

/-- Every switch, in the order of the bits. -/
def all : List Switch := [factorFromLaneX, xorIsOr]

/-- The bit of a switch. -/
def mask : Switch → Word
  | factorFromLaneX => 1
  | xorIsOr => 2

/-- The name of a switch as a constant. -/
def constantName : Switch → String
  | factorFromLaneX => "MAD_SRC1_LANE_X"
  | xorIsOr => "XOR_IS_OR"

/-- The switch with this constant name, spelled exactly so. -/
def ofConstantName? (name : String) : Option Switch := all.find? (·.constantName = name)

/-- The dialect in which only this switch is on. -/
def toDialect (s : Switch) : Dialect := ⟨s.mask⟩

end Switch

namespace Dialect

/-- No switch is on. -/
def plain : Dialect := ⟨0⟩

/-- The dialect of instructions that name none: exclusive or computes or. -/
def standard : Dialect := ⟨2⟩

/-- Every switch is on. -/
def reference : Dialect := ⟨3⟩

/-- The bits that belong to a switch. -/
def known : Word := 3

/-! ## As a set of bits -/

/-- The bits of either dialect. -/
def union (a b : Dialect) : Dialect := ⟨a.bits ||| b.bits⟩

/-- The bits of both dialects. -/
def inter (a b : Dialect) : Dialect := ⟨a.bits &&& b.bits⟩

/-- The bits of the first dialect that the second does not have. -/
def diff (a b : Dialect) : Dialect := ⟨a.bits &&& ~~~b.bits⟩

/-- The bits of exactly one dialect. -/
def symmDiff (a b : Dialect) : Dialect := ⟨a.bits ^^^ b.bits⟩

/-- The dialect without the bits that belong to no switch. -/
def truncate (a : Dialect) : Dialect := ⟨a.bits &&& known⟩

/-- The switches that are off, without the bits that belong to none. -/
def complement (a : Dialect) : Dialect := truncate ⟨~~~a.bits⟩

/-- Whether the first dialect has all bits of the second. -/
def contains (a b : Dialect) : Bool := a.bits &&& b.bits == b.bits

/-- Whether the dialects have a bit in common. -/
def intersects (a b : Dialect) : Bool := a.bits &&& b.bits != 0

/-- Whether no bit is set, of a switch or not. -/
def isEmpty (a : Dialect) : Bool := a.bits == 0

/-- Whether every switch is on, whatever the other bits are. -/
def isAll (a : Dialect) : Bool := a.contains reference

/-- Whether a switch is on. -/
def has (a : Dialect) (s : Switch) : Bool := a.contains s.toDialect

/-- The dialect with these bits, unless one of them belongs to no switch. -/
def ofBits? (bits : Word) : Option Dialect :=
  if bits &&& ~~~known = 0 then some ⟨bits⟩ else none

/-! ## Its parts and its text -/

/-- The switches that are on, in the order of their bits. -/
def switches (a : Dialect) : List Switch := Switch.all.filter a.has

/-- The bits that belong to no switch. -/
def unknown (a : Dialect) : Word := a.bits &&& ~~~known

/-- The switches that are on and then the bits without a switch, each part a dialect. -/
def parts (a : Dialect) : List Dialect :=
  a.switches.map Switch.toDialect ++ if a.unknown = 0 then [] else [⟨a.unknown⟩]

/-- A number of bits as `0x` and its hexadecimal digits. -/
def bitsText (bits : Word) : String := "0x" ++ String.ofList (Text.hexadecimal bits.toNat)

/-- The names of the parts; bits without a switch are written together as a number. -/
def debug (a : Dialect) : String :=
  let rest := if a.unknown = 0 then [] else [bitsText a.unknown]
  let names := a.switches.map Switch.constantName ++ rest
  "AluQuirks(" ++ (if names.isEmpty then bitsText 0 else " | ".intercalate names) ++ ")"

/-! ## A switch is one bit -/

/-- Membership of a set with one element is a bit of the word. -/
theorem and_twoPow_beq (bits : Word) (i : Nat) (h : i < 32) :
    (bits &&& BitVec.twoPow 32 i == BitVec.twoPow 32 i) = bits.getLsbD i := by
  have hne : (0 : Word) ≠ BitVec.twoPow 32 i := by
    intro heq
    have := congrArg (BitVec.getLsbD · i) heq
    simp [h] at this
  rw [BitVec.and_twoPow]
  cases bits.getLsbD i
  · simpa using hne
  · simp

theorem has_factorFromLaneX (a : Dialect) : a.has .factorFromLaneX = a.bits.getLsbD 0 := by
  rw [← and_twoPow_beq a.bits 0 (by decide)]
  rfl

theorem has_xorIsOr (a : Dialect) : a.has .xorIsOr = a.bits.getLsbD 1 := by
  rw [← and_twoPow_beq a.bits 1 (by decide)]
  rfl

end Dialect

end FourLane
